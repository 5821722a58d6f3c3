import Offside.Proofs.SingleLine
import Offside.Proofs.TrailingBlanks

/-!
# Where the inline layout breaks a line

In the inline layout blocks are rows. Only a module puts its members on lines of their own, and only
an empty line before a declaration breaks a row. So a tree that is no module stands on one line,
unless the mode asks for empty lines and there is a declaration inside that binds nothing.
-/
namespace Offside

open Doc Syntax

/-! ### Documents without groups -/

namespace Doc

/-- Whether there is no group, and everything starts in the column of what stands above it. -/
def isLined : Doc → Bool
  | .empty | .text _ => true
  | .nested _ d => d.isLined
  | .joined l _ r => l.isLined && r.isLined
  | .stacked u _ l => u.isLined && l.isLined && decide (l.lead = u.lead)
  | .grouped _ _ _ => false

/-- A layout that starts no further left than the first line ends no further left than it. -/
theorem le_column_lay {d : Doc} (hd : d.isLined) (limits : Limits) (follow : Nat) {indent : Int}
    (fit : Fit) {c : Cursor} (hc : indent + d.lead ≤ c.column) :
    indent + d.lead ≤ (d.lay limits follow indent fit c).1.column := by
  induction d using Doc.inductOn generalizing follow indent fit c with
  | empty => rwa [Doc.lay]
  | text s =>
    rw [Doc.lay, Cursor.write]
    split_ifs <;> simp only <;> omega
  | nested k d ih =>
    rw [Doc.lay, lead, ← Int.add_assoc]
    exact ih hd follow fit (by rwa [lead, ← Int.add_assoc] at hc)
  | joined l spaced r ihl ihr =>
    rw [isLined, Bool.and_eq_true] at hd
    rw [lead] at hc
    rw [Doc.lay, lead, Laid.andThen_fst]
    have hleft := ihl hd.1 (gap spaced + r.ahead fit follow) fit hc
    generalize l.lay limits (gap spaced + r.ahead fit follow) indent fit c = x at hleft
    have hskip : x.1.column ≤ (x.1.skip spaced).column := by
      unfold Cursor.skip Cursor.advance
      split_ifs <;> simp
    have hright : (x.1.skip spaced).column - r.lead + r.lead ≤
        (r.lay limits follow ((x.1.skip spaced).column - r.lead) fit (x.1.skip spaced)).1.column :=
      ihr hd.2 follow fit (by omega)
    dsimp only
    omega
  | stacked u overlap l ihu ihl =>
    simp only [isLined, Bool.and_eq_true, decide_eq_true_eq] at hd
    rw [Doc.lay, lead, ← hd.2, Laid.andThen_fst, Laid.andThen_fst]
    exact ihl hd.1.2 follow .broken (le_below_column _ _ _ _ _)
  | grouped fill spaced ds ih => simp [isLined] at hd

/-- What cannot stand on one line is broken, unless the page has only one. -/
theorem newline_mem_lay {d : Doc} (hd : d.isLined) (hflat : d.flat? = none) {limits : Limits}
    (hlimits : limits.discipline ≠ .oneLine) (follow : Nat) {indent : Int} (fit : Fit) {c : Cursor}
    (hc : indent + d.lead ≤ c.column) : .newline ∈ (d.lay limits follow indent fit c).2 := by
  induction d using Doc.inductOn generalizing follow indent fit c with
  | empty => simp [flat?] at hflat
  | text s => simp [flat?] at hflat
  | nested k d ih =>
    rw [Doc.lay]
    apply ih hd hflat
    rwa [lead, ← Int.add_assoc] at hc
  | joined l spaced r ihl ihr =>
    rw [isLined, Bool.and_eq_true] at hd
    rw [Doc.lay, Laid.andThen_snd, List.mem_append]
    cases hl : l.flat? with
    | none => exact .inl (ihl hd.1 hl _ _ hc)
    | some a =>
      have hr : r.flat? = none := by
        cases hr : r.flat? with
        | none => rfl
        | some b => simp [flat?, hl, hr] at hflat
      right
      apply ihr hd.2 hr
      omega
  | stacked u overlap l ihu ihl =>
    simp only [isLined, Bool.and_eq_true, decide_eq_true_eq] at hd
    have hupper := le_column_lay hd.1.1 limits 0 .broken hc
    have hbelow : ∀ c : Cursor, indent + u.lead ≤ c.column →
        (c.below limits.discipline indent overlap l).2 = [.newline] := by
      intro c hc
      have htarget : ¬ c.column < indent + l.lead := by omega
      unfold Cursor.below Cursor.newline
      rw [if_neg (by simp [htarget])]
      cases h : limits.discipline with
      | page => rfl
      | left => rfl
      | oneLine => exact absurd h hlimits
    rw [Doc.lay, Laid.andThen_snd, Laid.andThen_snd, hbelow _ hupper]
    simp
  | grouped fill spaced ds ih => simp [isLined] at hd

theorem isRow_of_isLined {d : Doc} (hd : d.isLined) {w : Nat}
    (hflat : d.flat? = some w) : d.isRow := by
  induction d using Doc.inductOn generalizing w with
  | empty => rfl
  | text s => rfl
  | nested k d ih => exact ih hd hflat
  | joined l spaced r ihl ihr =>
    rw [isLined, Bool.and_eq_true] at hd
    obtain ⟨a, b, ha, hb, -⟩ := flat?_joined_iff.mp hflat
    rw [isRow, ihl hd.1 ha, ihr hd.2 hb, Bool.and_self]
  | stacked u overlap l ihu ihl => simp [flat?] at hflat
  | grouped fill spaced ds ih => simp [isLined] at hd

/-- Without groups and at the left margin, with leaves that satisfy `P`. -/
structure Lined (P : String → Prop) (d : Doc) : Prop where
  isLined : d.isLined = true
  lead : d.lead = 0
  leaves : ∀ s ∈ d.leaves, P s

namespace Lined

variable {P : String → Prop} {d l r : Doc} {ds : List Doc}

theorem empty : Lined P .empty := ⟨rfl, rfl, by simp [Doc.leaves]⟩

theorem text {s : String} (hs : P s) : Lined P (.text s) :=
  ⟨rfl, rfl, by simpa [Doc.leaves] using hs⟩

theorem beside (hl : l.Lined P) (hr : r.Lined P) (spaced : Bool) : (l.beside spaced r).Lined P := by
  unfold Doc.beside
  split_ifs
  · exact hr
  · exact hl
  · refine ⟨?_, hl.lead, ?_⟩
    · rw [Doc.isLined, hl.isLined, hr.isLined, Bool.and_self]
    · rw [Doc.leaves, List.forall_mem_append]
      exact ⟨hl.leaves, hr.leaves⟩

theorem above (hl : l.Lined P) (hr : r.Lined P) : (l.above r).Lined P := by
  unfold Doc.above Doc.stack
  split_ifs
  · exact hr
  · exact hl
  · refine ⟨?_, hl.lead, ?_⟩
    · simp [Doc.isLined, hl.isLined, hr.isLined, hl.lead, hr.lead]
    · rw [Doc.leaves, List.forall_mem_append]
      exact ⟨hl.leaves, hr.leaves⟩

theorem vcat (hds : ∀ d ∈ ds, d.Lined P) : (vcat ds).Lined P :=
  List.foldlRecOn ds Doc.above empty fun _ hd e he => hd.above (hds e he)

/-- If it can stand on one line, no page breaks it. -/
theorem straight (hd : d.Lined P) {w : Nat} (hflat : d.flat? = some w) : d.Straight P :=
  ⟨isRow_of_isLined hd.isLined hflat, hd.lead, hd.leaves⟩

theorem newline_mem_chunks (hd : d.Lined P) (hflat : d.flat? = none) {style : Style}
    (hstyle : style.discipline ≠ .oneLine) : .newline ∈ d.chunks style := by
  rw [chunks_eq_lay]
  apply newline_mem_lay hd.isLined hflat hstyle
  simp [Cursor.start, hd.lead]

end Lined

end Doc

/-! ### The combinators in the inline layout -/

theorem isVertical_of_inline {m : Mode} (hm : m.layout = .inline) : m.isVertical = false := by
  rw [Mode.isVertical, hm]
  rfl

theorem Doc.rowwise_isLined : Rowwise isLined :=
  ⟨rfl, fun _ => rfl, fun _ _ => rfl, fun _ _ _ => rfl⟩

namespace Syntax

theorem lined_topLevel {m : Mode} (hm : m.layout = .inline) {header : Doc} {ds : List Doc}
    (hheader : header.Lined fun _ => True) (hds : ∀ d ∈ ds, d.Lined fun _ => True) :
    (m.topLevel header ds).Lined fun _ => True := by
  have hpunctuate : ∀ d ∈ punctuate semi ds, d.Lined fun _ => True := by
    fun_induction punctuate semi ds with
    | case1 => exact hds
    | case2 d => exact hds
    | case3 d ds _ ih =>
      rw [List.forall_mem_cons] at hds ⊢
      exact ⟨hds.1.beside (.text trivial) false, ih hds.2⟩
  simp only [Mode.topLevel, hm]
  exact hheader.above (((Lined.text trivial).beside (.vcat hpunctuate) false).beside
    (.text trivial) false)

theorem lined_introduce {m : Mode} (hm : m.layout = .inline) (t : Node) {d : Doc}
    (hd : d.isLined) {w : String} (hbegins : d.Begins w) :
    (t.introduce m d).Lined fun _ => True := by
  obtain ⟨v, hv, -⟩ := Node.begins_marked phrasing_true hbegins trivial m t
  have hmarked : (t.mark?.elim d fun loc => m.markLine loc d).Lined fun _ => True := by
    refine ⟨?_, hv.lead, fun _ _ => trivial⟩
    cases t.mark? with
    | none => exact hd
    | some loc => exact (rowwise_isLined.markLine d (isVertical_of_inline hm) loc).trans hd
  unfold Node.introduce Mode.blankLine
  dsimp only
  split_ifs
  · exact (Lined.text trivial).above hmarked
  · exact hmarked
  · exact hmarked

/-- In the inline layout no combinator makes a group, and what is printed for a tree starts at the
left margin. -/
theorem keeps_isLined {m : Mode} (hm : m.layout = .inline) :
    Sketch.Keeps (fun _ => True) (fun d => (d m).Lined fun _ => True) fun d =>
      (d m).isLined = true := by
  apply rowwise_isLined.keeps (isVertical_of_inline hm)
  · exact fun hd => hd.isLined
  · intro keyword header ds hheader hds
    have hbegins : (m.sepFirst (.text keyword :: header)).Begins keyword :=
      (Doc.Begins.text keyword).row m .sepFirst (List.filter_cons_of_pos rfl)
    exact (lined_topLevel hm ⟨hheader, hbegins.lead, fun _ _ =>
      trivial⟩ (List.forall_mem_map.mpr hds)).isLined
  · intro t d hd hbegins
    obtain ⟨w, hw⟩ := hbegins m
    exact lined_introduce hm t hd hw

end Syntax

/-! ### Documents that can stand on one line -/

namespace Doc

def isFlat (d : Doc) : Bool := d.flat?.isSome

theorem rowwise_isFlat : Rowwise isFlat := by
  refine ⟨rfl, fun _ => rfl, fun _ _ => rfl, fun l spaced r => ?_⟩
  unfold isFlat
  rw [flat?]
  cases l.flat? <;> cases r.flat? <;> rfl

theorem isFlat_above {u l : Doc} (hu : u.isEmpty = false) (hl : l.isEmpty = false) :
    (u.above l).isFlat = false := by
  rw [above, stack, if_neg (by simp [hu]), if_neg (by simp [hl])]
  rfl

end Doc

namespace Syntax

namespace Sketch

mutual

/-- Whether the plan is not that of a module. -/
def isInner : Sketch → Bool
  | .beside l _ r => l.isInner && r.isInner
  | .upon u l => u.isInner && l.isInner
  | .row _ parts => areInner parts
  | .topLevel _ _ _ => false
  | .nothing | .word _ | .tree _ _ | .clauses _ | .block _ _ | .wheres _ => true

def areInner : List Sketch → Bool
  | [] => true
  | s :: ss => s.isInner && areInner ss

end

theorem areInner_eq (ss : List Sketch) : areInner ss = ss.all isInner := by
  induction ss with
  | nil => rfl
  | cons s ss ih => rw [areInner, ih, List.all_cons]

end Sketch

def Atom.isFlat (m : Mode) : Atom → Bool
  | .word _ => true
  | .tree t level => (t.pretty m level).value.isFlat
  | .block items => items.all fun i => (i.doc m).isFlat

theorem Sketch.isFlat_doc {m : Mode} (hm : m.layout = .inline) {s : Sketch} (hs : s.isInner) :
    (s.doc m).isFlat = s.atoms.all (Atom.isFlat m) := by
  have hrow := rowwise_isFlat
  have hvertical := isVertical_of_inline hm
  have hitems : ∀ items : List Node, (items.map (Node.doc m)).all Doc.isFlat =
      items.all fun i => (i.doc m).isFlat := by
    simp [Function.comp_def]
  induction s using Sketch.inductOn with
  | nothing => rfl
  | word s => rfl
  | tree t level => simp [Atom.isFlat]
  | beside l spaced r ihl ihr =>
    rw [isInner, Bool.and_eq_true] at hs
    rw [doc, hrow.beside, ihl hs.1, ihr hs.2, atoms, List.all_append]
  | upon u l ihu ihl =>
    rw [isInner, Bool.and_eq_true] at hs
    rw [doc_upon, hrow.aboveOrBeside _ _ hvertical, ihu hs.1, ihl hs.2, atoms_upon, List.all_append]
  | row arrangement parts ih =>
    rw [isInner, areInner_eq, List.all_eq_true] at hs
    rw [doc_row, hrow.row _ hvertical, atoms_row, List.all_flatMap, List.all_map, Bool.eq_iff_iff,
      List.all_eq_true, List.all_eq_true]
    apply forall₂_congr
    intro s hmem
    rw [Function.comp_apply, ih s hmem (hs s hmem)]
  | clauses items =>
    rw [doc_clauses, hrow.clauses _ hvertical, hitems, atoms_clauses, List.all_map]
    rfl
  | block indent items =>
    rw [doc_block, hrow.block _ hvertical, hitems]
    simp [Atom.isFlat]
  | wheres items =>
    rw [doc_wheres, hrow.whereClause _ hvertical, hitems, atoms_wheres]
    split_ifs with h
    · simp [List.isEmpty_iff.mp h]
    · simp [Atom.isFlat]
  | topLevel keyword header items _ => simp [isInner] at hs

/-! ### Plans -/

section

open Sketch

@[simp] theorem isInner_nothing : nothing.isInner = true := rfl

@[simp] theorem isInner_word (s : String) : (word s).isInner = true := rfl

@[simp] theorem isInner_tree (t : Node) (level : Nat) : (tree t level).isInner = true := rfl

@[simp] theorem isInner_append (l r : Sketch) : (l ++ r).isInner = (l.isInner && r.isInner) := rfl

@[simp] theorem isInner_appendSpace (l r : Sketch) :
    (l.appendSpace r).isInner = (l.isInner && r.isInner) := rfl

@[simp] theorem isInner_upon (u l : Sketch) : (upon u l).isInner = (u.isInner && l.isInner) := rfl

@[simp] theorem isInner_row (arrangement : Row) (parts : List Sketch) :
    (row arrangement parts).isInner = parts.all isInner :=
  areInner_eq parts

@[simp] theorem isInner_clauses (items : List Node) : (clauses items).isInner = true := rfl

@[simp] theorem isInner_block (indent : Mode → Nat) (items : List Node) :
    (block indent items).isInner = true := rfl

@[simp] theorem isInner_wheres (items : List Node) : (wheres items).isInner = true := rfl

@[simp] theorem isInner_parens (s : Sketch) : s.parens.isInner = s.isInner := by
  simp [Sketch.parens]

@[simp] theorem isInner_brackets (s : Sketch) : s.brackets.isInner = s.isInner := by
  simp [Sketch.brackets]

@[simp] theorem isInner_braces (s : Sketch) : s.braces.isInner = s.isInner := by
  simp [Sketch.braces]

@[simp] theorem isInner_parensIf (b : Bool) (s : Sketch) : (parensIf b s).isInner = s.isInner := by
  cases b <;> simp [Sketch.parensIf]

@[simp] theorem isInner_backquoted (s : Sketch) : s.backquoted.isInner = s.isInner := by
  simp [Sketch.backquoted]

@[simp] theorem all_isInner_punctuate (ss : List Sketch) :
    (punctuate ss).all isInner = ss.all isInner := by
  fun_induction punctuate ss with
  | case1 => rfl
  | case2 s => rfl
  | case3 s ss _ ih =>
    rw [List.all_cons, List.all_cons, ih, isInner_append, isInner_word, Bool.and_true]

@[simp] theorem isInner_parenList (ss : List Sketch) : (parenList ss).isInner = ss.all isInner := by
  simp [parenList]

@[simp] theorem isInner_braceList (ss : List Sketch) : (braceList ss).isInner = ss.all isInner := by
  simp [braceList]

@[simp] theorem isInner_bracketList (ss : List Sketch) :
    (bracketList ss).isInner = ss.all isInner := by
  simp [bracketList]

@[simp] theorem Name.isInner_bareSketch (n : Name) : n.bareSketch.isInner = true := by
  cases n <;> rfl

@[simp] theorem Name.isInner_sketch (n : Name) : n.sketch.isInner = true := by
  simp [Name.sketch]

@[simp] theorem Name.isInner_infixSketch (n : Name) : n.infixSketch.isInner = true := by
  unfold Name.infixSketch
  split_ifs <;> simp

@[simp] theorem QName.isInner_bareSketch (q : QName) : q.bareSketch.isInner = true := by
  unfold QName.bareSketch
  split
  · split_ifs <;> simp
  · simp
  · simp

@[simp] theorem QName.isInner_sketch (q : QName) : q.sketch.isInner = true := by
  simp [QName.sketch]

@[simp] theorem QName.isInner_infixSketch (q : QName) : q.infixSketch.isInner = true := by
  unfold QName.infixSketch
  split_ifs <;> simp

@[simp] theorem Literal.isInner_sketch (l : Literal) : l.sketch.isInner = true := by
  cases l <;> simp [Literal.sketch]

@[simp] theorem Context.isInner_sketch (c : Context) : c.sketch.isInner = true := by
  unfold Context.sketch
  split_ifs <;> simp

@[simp] theorem isInner_derivingSketch (qs : List QName) : (derivingSketch qs).isInner = true := by
  unfold derivingSketch
  split <;> simp

@[simp] theorem isInner_entitySketch (entity : String) : (entitySketch entity).isInner = true := by
  unfold entitySketch
  split_ifs <;> simp

@[simp] theorem all_isInner_alternativeSketches (ss : List Sketch) :
    (alternativeSketches ss).all isInner = ss.all isInner := by
  cases ss <;> simp [alternativeSketches, Function.comp_def]

@[simp] theorem all_isInner_clauseHeadSketches (name : Name) (ss : List Sketch) :
    (clauseHeadSketches name ss).all isInner = ss.all isInner := by
  unfold clauseHeadSketches
  split
  · split_ifs <;> simp_all [Bool.and_assoc]
  · simp

@[simp] theorem Assoc.isInner_sketch (a : Assoc) : a.sketch.isInner = true := by
  cases a <;> rfl

@[simp] theorem Safety.isInner_sketch (s : Safety) : s.sketch.isInner = true := by
  cases s <;> rfl

/-- Only the plan of a module has members on lines of their own. -/
theorem Node.isInner_sketch {t : Node} (ht : t.isModule = false) (level : Nat) :
    (t.sketch level).isInner := by
  cases t with
  | module => simp at ht
  | decl node => cases node <;> simp [Node.sketch, Decl.sketch, classSketch]
  | expr node =>
    cases node with
    | asPat name e => cases e <;> simp [Node.sketch, Expr.sketch]
    | _ => simp [Node.sketch, Expr.sketch]
  | pat node =>
    cases node with
    | asPat name p => cases p <;> simp [Node.sketch, Pat.sketch]
    | _ => simp [Node.sketch, Pat.sketch]
  | ty node =>
    cases node with
    | app f arg => by_cases hf : f.isListCon <;> simp [Node.sketch, Ty.sketch, hf]
    | _ => simp [Node.sketch, Ty.sketch]
  | conDecl node =>
    cases node with
    | positional loc name args =>
      simp only [Node.sketch, ConDecl.sketch]
      split
      · split_ifs <;> simp
      · simp
    | record => simp [Node.sketch, ConDecl.sketch]
  | importSpecs node =>
    obtain ⟨hides, items⟩ := node
    cases hides <;> simp [Node.sketch, ImportSpecs.sketch]
  | importDecl node =>
    obtain ⟨loc, module, qualified, asName, specs⟩ := node
    cases qualified <;> cases asName <;> cases specs <;> simp [Node.sketch, ImportDecl.sketch]
  | exportSpec node => cases node <;> simp [Node.sketch, ExportSpec.sketch]
  | importSpec node => cases node <;> simp [Node.sketch, ImportSpec.sketch]
  | bangType node => cases node <;> simp [Node.sketch, BangType.sketch]
  | rhs node => cases node <;> simp [Node.sketch, Rhs.sketch]
  | guardedAlts node => cases node <;> simp [Node.sketch, GuardedAlts.sketch]
  | stmt node => cases node <;> simp [Node.sketch, Stmt.sketch]
  | clause node | alt node | guardedAlt node | guardedRhs node | patField node | fieldUpdate node =>
    cases node
    simp [Node.sketch, Match.sketch, Alt.sketch, GuardedAlt.sketch, GuardedRhs.sketch,
      PatField.sketch, FieldUpdate.sketch]
  | _ => simp [Node.sketch]

end

/-! ### Trees -/

namespace Node

variable {m : Mode} {t : Node}

/-- No empty line goes before a declaration inside the tree. -/
def StaysInline (m : Mode) (t : Node) : Prop :=
  m.spacing = true → ∀ s : Node, s.Inside t → s.isSpaced = false

theorem isCode_of_isSpaced (ht : t.isSpaced = true) : t.isCode = true := by
  cases t with
  | decl node => rfl
  | _ => simp [isSpaced] at ht

theorem isModule_child {c : Node} (hc : c ∈ t.children) : c.isModule = false := by
  suffices h : ∀ mod, .module mod ∉ t.children by
    cases c with
    | module mod => exact absurd hc (h mod)
    | _ => rfl
  intro mod
  cases t with
  | exportSpec node => cases node <;> simp [children, ExportSpec.children]
  | importSpec node => cases node <;> simp [children, ImportSpec.children]
  | conDecl node => cases node <;> simp [children, ConDecl.children]
  | bangType node => cases node <;> simp [children, BangType.children]
  | ty node => cases node <;> simp [children, Ty.children]
  | pat node => cases node <;> simp [children, Pat.children]
  | expr node => cases node <;> simp [children, Expr.children]
  | stmt node => cases node <;> simp [children, Stmt.children]
  | decl node => cases node <;> simp [children, Decl.children]
  | rhs node => cases node <;> simp [children, Rhs.children]
  | guardedAlts node => cases node <;> simp [children, GuardedAlts.children]
  | patField node | fieldUpdate node | alt node | guardedAlt node | clause node | guardedRhs node =>
    cases node
    simp [children, PatField.children, FieldUpdate.children, Alt.children, GuardedAlt.children,
      Match.children, GuardedRhs.children]
  | _ => simp [children, QName.children]

theorem isFlat_introduce (hm : m.layout = .inline) {d : Doc} {w : String} (hd : d.Begins w) :
    (t.introduce m d).isFlat = (d.isFlat && !(t.isSpaced && m.spacing)) := by
  obtain ⟨v, hmarked, -⟩ := begins_marked phrasing_true hd trivial m t
  have hflat : (t.mark?.elim d fun loc => m.markLine loc d).isFlat = d.isFlat := by
    cases t.mark? with
    | none => rfl
    | some loc => exact rowwise_isFlat.markLine d (isVertical_of_inline hm) loc
  unfold introduce Mode.blankLine
  rw [hm]
  cases t.isSpaced with
  | false => simpa using hflat
  | true =>
    cases m.spacing with
    | false => simpa using hflat
    | true => simpa using isFlat_above rfl hmarked.isEmpty

/-- A tree other than a module can stand on one line if no empty line goes before a declaration
inside. -/
theorem WellFormed.isFlat_iff (ht : t.WellFormed) (hm : m.layout = .inline)
    (hmodule : t.isModule = false) (level : Nat) :
    (t.pretty m level).value.isFlat ↔ t.StaysInline m := by
  induction t using Node.inductOn generalizing level with
  | step t ih =>
    have hworded := t.worded_true
    obtain ⟨hlack, hbelow⟩ := wellFormed_iff.mp ht
    rw [List.forall_iff_forall_mem] at hbelow
    have hflat : ∀ c ∈ t.children, ∀ level, (c.pretty m level).value.isFlat ↔
        c.StaysInline m := fun c hc =>
      ih c hc (hbelow c hc) (isModule_child hc)
    obtain ⟨w, hbegins, -⟩ := begins_sketch phrasing_true hlack hworded
      (fun c hc => (hbelow c hc).begins phrasing_true (hworded.child hc) m) level
    rw [value_pretty m hlack level, isFlat_introduce hm hbegins,
      Sketch.isFlat_doc hm (isInner_sketch hmodule level), Bool.and_eq_true, List.all_eq_true]
    constructor
    · rintro ⟨hatoms, hhere⟩ hspacing s hs
      cases hs with
      | here => simpa [hspacing] using hhere
      | @child _ c hc hs =>
        by_contra hspaced
        have hcode : s.isCode = true := isCode_of_isSpaced (by simpa using hspaced)
        have hquiet : c.StaysInline m := by
          rcases shows_or_mem_block hc (isCode_of_inside hs hcode)
              level with ⟨l, hshows⟩ | ⟨hblock, hitem⟩
          · exact (hflat c hc l).mp (hatoms _ hshows)
          · exact (hflat c hc 0).mp (List.all_eq_true.mp (hatoms _ hblock) c hitem)
        exact hspaced (hquiet hspacing s hs)
    · intro hnone
      have hquiet : ∀ c ∈ t.children, ∀ level, (c.pretty m level).value.isFlat := fun c hc l =>
        (hflat c hc l).mpr fun hspacing s hs => hnone hspacing s (.child hc hs)
      constructor
      · intro a ha
        have hbelongs := hworded.belongs phrasing_true level a ha
        cases a with
        | word s => rfl
        | tree c l => exact hquiet c hbelongs l
        | block items =>
          obtain ⟨rfl, -⟩ := hbelongs
          exact List.all_eq_true.mpr fun c hc => hquiet c (mem_children_of_items hc) 0
      · cases hspacing : m.spacing with
        | false => simp
        | true => simpa using hnone hspacing t .here

end Node

/-- In the inline layout a well-formed tree that is no module can stand on one line exactly if the
mode asks for no empty lines or no declaration inside needs one. Then every page shows it on one
line. Otherwise every page breaks it that can have several lines. -/
theorem inline_layout_breaks_before_spaced_decl {t : Node} (ht : t.WellFormed)
    (hmodule : t.isModule = false) {m : Mode} (hm : m.layout = .inline) (level : Nat) :
    ∃ d, t.toDoc m level = .ok d ∧ (d.flat?.isSome ↔ t.StaysInline m) ∧
      (t.StaysInline m → (∀ style, .newline ∉ d.chunks style ∧
        t.print style m level = .ok d.flatText) ∧
        (t.Worded (fun w => '\n' ∉ w.toList) → '\n' ∉ d.flatText.toList)) ∧
      (¬ t.StaysInline m → ∀ style : Style, style.discipline ≠ .oneLine →
        .newline ∈ d.chunks style) := by
  have hdoc := (ht.toDoc_eq m level).2
  have hflat := ht.isFlat_iff hm hmodule level
  have hd : (t.pretty m level).value.Lined fun _ => True :=
    (keeps_isLined hm).pretty phrasing_true ht t.worded_true level
  refine ⟨_, hdoc, hflat, fun hstays => ?_, fun hbreaks style hstyle => ?_⟩
  · obtain ⟨w, hw⟩ := Option.isSome_iff_exists.mp (hflat.mpr hstays)
    have hrow := hd.straight hw
    refine ⟨fun style => ⟨hrow.newline_notMem_chunks style, ?_⟩, fun hwords => ?_⟩
    · rw [ht.print_eq, hrow.render_eq]
    · have hplain : Straight (fun s => '\n' ∉ s.toList) _ :=
        ⟨hrow.isRow, hrow.lead, ht.plain hwords m level⟩
      rw [← hplain.render_eq {}]
      exact hplain.newline_notMem_render {}
  · apply hd.newline_mem_chunks _ hstyle
    rw [← Option.not_isSome_iff_eq_none]
    exact fun hsome => hbreaks (hflat.mp hsome)

theorem let_with_function_stays_inline :
    let t := Node.stmt (.letStmt [.simpleFun "f" [.wildcard] (.doBlock [.qualifier .wildcard])])
    let m : Mode := { layout := .inline }
    t.WellFormed ∧ t.isModule = false ∧ t.Worded (fun w => '\n' ∉ w.toList) ∧ t.StaysInline m ∧
      (∀ style, t.print style m 0 = .ok "let \x7b f _ = do \x7b _\x7d\x7d") := by
  intro t m
  have ht : t.WellFormed := by
    simp [t, Node.wellFormed_iff, Node.children, Stmt.children, Decl.simpleFun, Match.ofRhs,
      Decl.children, Match.children, Rhs.children, Expr.children, Pat.children]
  have hwords : t.Worded fun w => '\n' ∉ w.toList := by
    simp [t, Node.worded_iff, Node.words, Node.children, Stmt.children, Decl.simpleFun, Match.ofRhs,
      Decl.children, Match.children, Rhs.children, Expr.children, Pat.children]
  obtain ⟨d, hd, hflat, hrow, -⟩ := inline_layout_breaks_before_spaced_decl ht rfl (m := m) rfl 0
  have hstays : t.StaysInline m := by
    apply hflat.mp
    rw [← Except.ok.inj hd]
    decide
  have htext : d.flatText = "let \x7b f _ = do \x7b _\x7d\x7d" := by
    rw [← Except.ok.inj hd]
    decide
  rw [← htext]
  exact ⟨ht, rfl, hwords, hstays, fun style => ((hrow hstays).1 style).2⟩

/-- A signature in a block: the line breaks after the opening brace. -/
theorem inline_block_breaks_before_signature :
    let t := Node.expr (.letIn [.signature [.ident "f"] (.ofVar "a")] (.ofVar "x"))
    let m : Mode := { layout := .inline }
    t.WellFormed ∧ t.isModule = false ∧ (t.pretty m 0).value.flat? = none ∧
      t.print {} m 0 = .ok "let \x7b \n      f :: a\x7d in x" := by
  intro t m
  have ht : t.WellFormed := by
    simp [t, Node.wellFormed_iff, Node.children, Expr.children, Decl.signature, Decl.children,
      Ty.ofVar, QualType.ofTy, Ty.children, Expr.ofVar, QName.ofIdent, QName.unqualified,
      QName.children]
  refine ⟨ht, rfl, rfl, ?_⟩
  rw [ht.print_eq, Doc.render, chunks_eq_lay]
  decide

end Syntax

end Offside
