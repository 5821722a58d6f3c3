import Offside.Proofs.Hanging
import Offside.Proofs.Subtrees

/-!
# Items of a block

An item may have an empty line or a pragma above it, and a function has as many clauses as it likes,
each perhaps with a pragma. All of these start at the column of the item. Below the first line of
anything else the item stays right of that column, so its document falls into strips that can be
told from the tree alone.
-/
namespace Offside

open Doc Syntax

namespace Mode

/-- The empty line above a declaration, where the mode asks for one. -/
def blank (m : Mode) : List Doc := if m.spacing then [.text ""] else []

/-- The pragma above a node, where the mode asks for one and the place is known. -/
def pragma (m : Mode) (loc : Location) : List Doc :=
  if !m.linePragmas || loc.isUnknown then [] else [linePragma (loc.line.toNat - 1) loc.file]

end Mode

namespace Syntax.Node

/-- What stands above an item at its column, for each clause of a function. -/
def marks (m : Mode) : Node → List (List Doc)
  | .decl (.funBind clauses) => clauses.map fun c => m.pragma c.loc
  | .decl (.patBind loc _ _ _) => [m.pragma loc]
  | .decl node => [m.blank ++ node.loc?.elim [] m.pragma]
  | .clause node => [m.pragma node.loc]
  | .importDecl node => [m.pragma node.loc]
  | _ => [[]]

end Syntax.Node

/-- The strips of an item: for each clause its marks, and then a document that hangs from its first
text. -/
inductive Clauses : List (List Doc) → List Doc → Prop where
  | nil : Clauses [] []
  | cons {marks : List Doc} {body : Doc} {rest : List (List Doc)} {strips : List Doc}
      (headed : body.Headed 1)
      (clauses : Clauses rest strips) : Clauses (marks :: rest) (marks ++ body :: strips)

namespace Doc

theorem Headed.isStrip {d : Doc} (h : d.Headed 1) : d.IsStrip := ⟨h.lead, .inr ⟨h.text, h.clears⟩⟩

/-- A document that hangs from its first text is one strip. -/
theorem Headed.strips_eq {d : Doc} (h : d.Headed 1) : d.strips = [d] := by
  cases d with
  | stacked u overlap l =>
    obtain ⟨-, hlead, -⟩ := h.clears
    have hupper : u.lead = 0 := h.lead
    cases overlap with
    | false => rfl
    | true => rw [strips, if_neg (by omega)]
  | _ => rfl

theorem strips_above {u l : Doc} (hu : u ≠ .empty) (hl : l ≠ .empty) (hlead : l.lead = u.lead) :
    (u.above l).strips = u.strips ++ l.strips := by
  rw [above, stack, if_neg (by simp [isEmpty_of_ne hu]), if_neg (by simp [isEmpty_of_ne hl]),
    strips, if_pos hlead]

theorem above_ne_empty {u l : Doc} (hu : u ≠ .empty) : u.above l ≠ .empty := by
  rw [above, stack, if_neg (by simp [isEmpty_of_ne hu])]
  split_ifs
  · exact hu
  · simp

theorem lead_above {u l : Doc} (hu : u ≠ .empty) : (u.above l).lead = u.lead := by
  rw [above, stack, if_neg (by simp [isEmpty_of_ne hu])]
  split_ifs <;> rfl

theorem vcat_ne_empty {ds : List Doc} (hds : ∀ d ∈ ds, d ≠ .empty) (hne : ds ≠ []) :
    vcat ds ≠ .empty := by
  have hfold : ∀ d : Doc, d ≠ .empty → ds.tail.foldl above d ≠ .empty := by
    induction ds.tail with
    | nil => exact fun d hd => hd
    | cons e es ih => exact fun d hd => ih _ (above_ne_empty hd)
  cases ds with
  | nil => exact absurd rfl hne
  | cons d ds => exact hfold d (hds d (by simp))

/-- Documents of one column stacked below each other keep their strips. -/
theorem strips_vcat {ds : List Doc} (hds : ∀ d ∈ ds, d ≠ .empty ∧ d.lead = 0) (hne : ds ≠ []) :
    (vcat ds).strips = ds.flatMap strips := by
  have hfold : ∀ d : Doc, d ≠ .empty → d.lead = 0 →
      ∀ es : List Doc, (∀ e ∈ es, e ≠ .empty ∧ e.lead = 0) →
      (es.foldl above d).strips = d.strips ++ es.flatMap strips := by
    intro d hd hlead es
    induction es generalizing d with
    | nil => simp
    | cons e es ih =>
      intro hes
      obtain ⟨he, hes⟩ := List.forall_mem_cons.mp hes
      rw [List.foldl_cons, ih _ (above_ne_empty hd) (by rw [lead_above hd, hlead]) hes,
        strips_above hd he.1 (by rw [he.2, hlead]), List.flatMap_cons, List.append_assoc]
  cases ds with
  | nil => exact absurd rfl hne
  | cons d ds =>
    obtain ⟨hd, hds⟩ := List.forall_mem_cons.mp hds
    exact hfold d hd.1 hd.2 ds hds

theorem flush_of_strips {d : Doc} (h : ∀ s ∈ d.strips, s.IsStrip ∧ s.Plain) : d.Flush := by
  have hsingle : ∀ s : Doc, s.IsStrip ∧ s.Plain → s.Flush := by
    rintro s ⟨⟨hlead, rfl | ⟨-, hclears⟩⟩, hplain⟩
    · exact ⟨rfl, trivial, hplain⟩
    · exact ⟨hlead, hclears.mono (by decide), hplain⟩
  fun_induction Doc.strips d with
  | case1 u l hlead ihu ihl =>
    obtain ⟨hu, hl⟩ := List.forall_mem_append.mp h
    have hupper := ihu hu
    have hlower := ihl hl
    refine ⟨hupper.lead, ⟨hupper.clears, Int.le_of_eq hlower.lead.symm, hlower.clears⟩, ?_⟩
    exact List.forall_mem_append.mpr ⟨hupper.plain, hlower.plain⟩
  | case2 => exact hsingle _ (h _ (by simp))
  | case3 => exact hsingle _ (h _ (by simp))

/-- The document of an item with these marks. -/
structure IsItem (marks : List (List Doc)) (d : Doc) : Prop where
  ne_empty : d ≠ .empty
  clauses : Clauses marks d.strips

theorem Headed.isItem {d : Doc} (h : d.Headed 1) : d.IsItem [[]] := by
  refine ⟨h.ne_empty, ?_⟩
  rw [h.strips_eq]
  exact .cons h .nil

end Doc

theorem Clauses.append {ms ns : List (List Doc)} {ss ts : List Doc} (hs : Clauses ms ss)
    (ht : Clauses ns ts) : Clauses (ms ++ ns) (ss ++ ts) := by
  induction hs with
  | nil => exact ht
  | cons headed _ ih =>
    rw [List.append_assoc, List.cons_append]
    exact .cons headed ih

theorem Clauses.isStrip {ms : List (List Doc)} {ss : List Doc} (h : Clauses ms ss)
    (hms : ∀ marks ∈ ms, ∀ d ∈ marks, d.IsStrip ∧ d.Plain) : ∀ s ∈ ss, s.IsStrip ∧ s.Plain := by
  induction h with
  | nil => simp
  | cons headed _ ih =>
    obtain ⟨hmarks, hms⟩ := List.forall_mem_cons.mp hms
    exact List.forall_mem_append.mpr ⟨hmarks,
      List.forall_mem_cons.mpr ⟨⟨headed.isStrip, headed.plain⟩, ih hms⟩⟩

namespace Mode

variable {m : Mode} {d : Doc}

theorem headed_linePragma (line : Int) (file : String) : (linePragma line file).Headed 1 :=
  .ofText (isWord_linePragma line file)

theorem blank_isStrip : ∀ d ∈ m.blank, d.IsStrip ∧ d.Plain := by
  unfold blank
  split_ifs
  · simp [IsStrip, Plain, leaves, lead]
  · simp

theorem pragma_isStrip (loc : Location) : ∀ d ∈ m.pragma loc, d.IsStrip ∧ d.Plain := by
  intro d hd
  unfold pragma at hd
  split_ifs at hd
  · simp at hd
  · obtain rfl := List.mem_singleton.mp hd
    exact ⟨(headed_linePragma _ _).isStrip, (headed_linePragma _ _).plain⟩

theorem marks_isStrip (t : Node) : ∀ marks ∈ t.marks m, ∀ d ∈ marks, d.IsStrip ∧ d.Plain := by
  have hplace : ∀ loc : Option Location, ∀ d ∈ loc.elim [] m.pragma, d.IsStrip ∧ d.Plain := by
    intro loc
    cases loc with
    | none => simp
    | some loc => exact pragma_isStrip loc
  intro marks hmarks
  unfold Node.marks at hmarks
  split at hmarks
  · obtain ⟨c, -, rfl⟩ := List.mem_map.mp hmarks
    exact pragma_isStrip _
  all_goals obtain rfl := List.mem_singleton.mp hmarks
  · exact pragma_isStrip _
  · exact List.forall_mem_append.mpr ⟨blank_isStrip, hplace _⟩
  · exact pragma_isStrip _
  · exact pragma_isStrip _
  · simp

end Mode

theorem Doc.IsItem.flush {m : Mode} {t : Node} {d : Doc} (h : d.IsItem (t.marks m)) : d.Flush :=
  flush_of_strips (h.clauses.isStrip (Mode.marks_isStrip t))

namespace Mode

variable {m : Mode} {d : Doc}

theorem markLine_eq (hm : m.layout = .offside) (loc : Location) (d : Doc) :
    m.markLine loc d = d ∧ m.pragma loc = [] ∨
      ∃ p : Doc, p.Headed 1 ∧ m.markLine loc d = p.above d ∧ m.pragma loc = [p] := by
  unfold markLine pragma
  split_ifs with hoff hvertical
  · exact .inl ⟨rfl, rfl⟩
  · exact .inr ⟨_, headed_linePragma _ _, rfl, rfl⟩
  · exact absurd (isVertical_of_offside hm) hvertical

/-- The place of a node makes an item of it, with the pragma as its mark. -/
theorem isItem_markLine (hm : m.layout = .offside) (loc : Location) (hd : d.Headed 1) :
    (m.markLine loc d).IsItem [m.pragma loc] ∧ (m.markLine loc d).lead = 0 := by
  rcases markLine_eq hm loc d with ⟨hmark, hpragma⟩ | ⟨p, hp, hmark, hpragma⟩
  · rw [hmark, hpragma]
    exact ⟨hd.isItem, hd.lead⟩
  · rw [hmark, hpragma, lead_above hp.ne_empty]
    refine ⟨⟨above_ne_empty hp.ne_empty, ?_⟩, hp.lead⟩
    rw [strips_above hp.ne_empty hd.ne_empty (by rw [hd.lead, hp.lead]), hp.strips_eq, hd.strips_eq]
    exact .cons hd .nil

/-- An empty line above an item is one more mark of its first clause. -/
theorem isItem_blankLine (hm : m.layout = .offside) {marks : List Doc} {rest : List (List Doc)}
    (hd : d.IsItem (marks :: rest)) (hlead : d.lead = 0) :
    (m.blankLine d).IsItem ((m.blank ++ marks) :: rest) ∧ (m.blankLine d).lead = 0 := by
  obtain ⟨hne, hclauses⟩ := hd
  unfold blankLine blank
  rw [hm]
  cases m.spacing with
  | false => exact ⟨⟨hne, hclauses⟩, hlead⟩
  | true =>
    refine ⟨⟨above_ne_empty (by simp), ?_⟩, lead_above (by simp)⟩
    have habove : ((text "").above d).strips = .text "" :: d.strips :=
      strips_above (by simp) hne hlead
    generalize d.strips = strips at hclauses habove
    cases hclauses with
    | cons headed clauses =>
      rw [if_pos rfl, if_pos (by decide), habove]
      exact .cons headed clauses

theorem isItem_declaration (hm : m.layout = .offside) (loc : Location) (hd : d.Headed 1) :
    (m.blankLine (m.markLine loc d)).IsItem [m.blank ++ m.pragma loc] ∧
    (m.blankLine (m.markLine loc d)).lead = 0 :=
  isItem_blankLine hm (isItem_markLine hm loc hd).1 (isItem_markLine hm loc hd).2

end Mode

end Offside
