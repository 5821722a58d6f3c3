import Offside.Proofs.Atoms
import Offside.Proofs.Faults
import Offside.Proofs.Leaves

/-!
# How printed documents start

Every tree without a fault is printed as a document that starts at its own margin with the first
word of its plan, or with the empty text or the pragma that goes before a declaration. So no
document of a tree is empty, and none of them is moved to the right or to the left.
-/
namespace Offside

open Doc Syntax

namespace Mode

/-- Whether the mode puts an empty line before the declarations that bind nothing. -/
def spaces (m : Mode) : Bool := m.spacing && m.layout != .none

variable (m : Mode)

@[simp] theorem leaves_row (arrangement : Row) (ds : List Doc) :
    (arrangement.doc m ds).leaves = ds.flatMap leaves := by
  cases arrangement with
  | sepFirst => exact m.leaves_sepFirst ds
  | lines => exact m.leaves_lines ds
  | fill => exact m.leaves_fill ds
  | fillOnside => exact m.leaves_fillOnside ds

@[simp] theorem isEmpty_row (arrangement : Row) (ds : List Doc) :
    (arrangement.doc m ds).isEmpty = ds.all Doc.isEmpty := by
  cases arrangement with
  | sepFirst => exact m.isEmpty_sepFirst ds
  | lines => exact m.isEmpty_lines ds
  | fill => exact m.isEmpty_fill ds
  | fillOnside => exact m.isEmpty_fillOnside ds

end Mode

/-! ### Documents that start at their margin -/

/-- The document starts at its own margin with the text `s`. -/
structure Doc.Begins (s : String) (d : Doc) : Prop where
  lead : d.lead = 0
  head : d.leaves.head? = some s

theorem Doc.lead_nest (k : Int) {d : Doc} (hd : d.isEmpty = false) :
    (d.nest k).lead = k + d.lead := by
  unfold nest
  rw [hd, Bool.false_or]
  by_cases hk : k = 0
  · simp [hk]
  · simp [hk, lead]

theorem Doc.lead_group (fill spaced : Bool) {ds rest : List Doc} {d : Doc}
    (hds : ds.filter (fun d => !d.isEmpty) = d :: rest) : (group fill spaced ds).lead = d.lead := by
  unfold group
  rw [hds]
  cases rest <;> rfl

namespace Doc.Begins

variable {s : String} {d e : Doc}

theorem isEmpty (hd : d.Begins s) : d.isEmpty = false := by
  cases d with
  | empty => simpa [leaves] using hd.head
  | _ => rfl

theorem text (s : String) : (Doc.text s).Begins s := ⟨rfl, rfl⟩

theorem head_append (hd : d.Begins s) (ss : List String) : (d.leaves ++ ss).head? = some s := by
  rw [List.head?_append, hd.head]
  rfl

theorem beside (hd : d.Begins s) (spaced : Bool) (e : Doc) : (d.beside spaced e).Begins s := by
  constructor
  · unfold Doc.beside
    rw [hd.isEmpty, if_neg (by simp)]
    split
    · exact hd.lead
    · exact hd.lead
  · rw [leaves_beside]
    exact hd.head_append _

theorem above (hd : d.Begins s) (e : Doc) : (d.above e).Begins s := by
  constructor
  · unfold Doc.above Doc.stack
    rw [hd.isEmpty, if_neg (by simp)]
    split
    · exact hd.lead
    · exact hd.lead
  · rw [leaves_above]
    exact hd.head_append _

theorem group (hd : d.Begins s) (fill spaced : Bool) {ds rest : List Doc}
    (hds : ds.filter (fun d => !d.isEmpty) = d :: rest) : (Doc.group fill spaced ds).Begins s := by
  constructor
  · rw [lead_group fill spaced hds, hd.lead]
  · rw [leaves_group, ← flatMap_leaves_filter, hds, List.flatMap_cons]
    exact hd.head_append _

/-- The first member keeps its place before the others, which stand further to the right. -/
theorem nest_group (hd : d.Begins s) (k : Int) (fill spaced : Bool) (rest : List Doc) :
    (Doc.nest k (Doc.group fill spaced (Doc.nest (-k) d :: rest))).Begins s := by
  have hne : (Doc.nest (-k) d).isEmpty = false := by rw [isEmpty_nest, hd.isEmpty]
  have hfilter :=
    List.filter_cons_of_pos (l := rest) (p := fun d : Doc => !d.isEmpty) (a := Doc.nest (-k) d)
      (by simp [hne])
  constructor
  · rw [lead_nest k (by simp [hd.isEmpty]), lead_group fill spaced hfilter,
      lead_nest (-k) hd.isEmpty, hd.lead]
    omega
  · rw [leaves_nest, leaves_group, List.flatMap_cons, leaves_nest]
    exact hd.head_append _

theorem foldl {f : Doc → Doc → Doc} (hf : ∀ d e : Doc, d.Begins s → (f d e).Begins s)
    (hd : d.Begins s) (ds : List Doc) : (ds.foldl f d).Begins s := by
  induction ds generalizing d with
  | nil => exact hd
  | cons e ds ih => exact ih (hf _ _ hd)

theorem foldl_empty {f : Doc → Doc → Doc} (hempty : ∀ e, f .empty e = e)
    (hf : ∀ d e : Doc, d.Begins s → (f d e).Begins s) (hd : d.Begins s) {ds rest : List Doc}
    (hds : ds.filter (fun d => !d.isEmpty) = d :: rest) : (ds.foldl f .empty).Begins s := by
  induction ds with
  | nil => simp at hds
  | cons e ds ih =>
    rw [List.foldl_cons, hempty]
    by_cases he : e.isEmpty = true
    · rw [List.filter_cons_of_neg (by simp [he])] at hds
      rw [Doc.isEmpty_iff.mp he]
      exact ih hds
    · rw [List.filter_cons_of_pos (by simpa using he)] at hds
      obtain ⟨rfl, -⟩ := List.cons.inj hds
      exact foldl hf hd ds

theorem hsep (hd : d.Begins s) {ds rest : List Doc}
    (hds : ds.filter (fun d => !d.isEmpty) = d :: rest) : (Doc.hsep ds).Begins s :=
  foldl_empty (fun _ => rfl) (fun _ e hd => hd.beside true e) hd hds

theorem vcat (hd : d.Begins s) {ds rest : List Doc}
    (hds : ds.filter (fun d => !d.isEmpty) = d :: rest) : (Doc.vcat ds).Begins s :=
  foldl_empty (fun _ => rfl) (fun _ e hd => hd.above e) hd hds

theorem aboveOrBeside (hd : d.Begins s) (m : Mode) (e : Doc) : (m.aboveOrBeside d e).Begins s := by
  unfold Mode.aboveOrBeside
  split
  · exact hd.above e
  · exact hd.beside true e

theorem row (hd : d.Begins s) (m : Mode) (arrangement : Row) {ds rest : List Doc}
    (hds : ds.filter (fun d => !d.isEmpty) = d :: rest) : (arrangement.doc m ds).Begins s := by
  cases arrangement with
  | sepFirst =>
    simp only [Row.doc, Mode.sepFirst, hds]
    split
    · exact hd.beside true _
    · exact hd.hsep hds
  | lines =>
    simp only [Row.doc, Mode.lines]
    split
    · exact hd.vcat hds
    · exact hd.hsep hds
  | fill =>
    simp only [Row.doc, Mode.fill]
    split
    · exact hd.group true true hds
    · exact hd.hsep hds
  | fillOnside =>
    simp only [Row.doc, Mode.fillOnside, hds]
    split
    · exact hd.nest_group _ true true rest
    · exact hd.hsep hds

theorem clauses (hd : d.Begins s) (m : Mode) (ds : List Doc) : (m.clauses (d :: ds)).Begins s := by
  have hpunctuate : ∃ e es, punctuate semi (d :: ds) = e :: es ∧ e.Begins s := by
    cases ds with
    | nil => exact ⟨d, [], rfl, hd⟩
    | cons e es => exact ⟨d ++ semi, _, rfl, hd.beside false semi⟩
  obtain ⟨e, es, heq, he⟩ := hpunctuate
  have hfilter : ∀ e es, Doc.Begins s e → ∃ rest, (e :: es).filter (fun d => !d.isEmpty) =
      e :: rest := fun e es he =>
    ⟨_, List.filter_cons_of_pos (by simp [he.isEmpty])⟩
  obtain ⟨_, hds⟩ := hfilter d ds hd
  obtain ⟨_, hes⟩ := hfilter e es he
  unfold Mode.clauses
  rw [heq]
  split
  · exact hd.vcat hds
  · exact he.vcat hes
  · exact he.hsep hes
  · exact he.hsep hes

theorem topLevel (hd : d.Begins s) (m : Mode) (ds : List Doc) : (m.topLevel d ds).Begins s := by
  unfold Mode.topLevel
  split
  · exact hd.above _
  · exact hd.above _
  · exact hd.above _
  · exact hd.beside true _

end Doc.Begins

/-! ### Plans -/

namespace Syntax

/-- An atom that is printed with `w` as its first text. -/
def Atom.Begins (m : Mode) (w : String) : Atom → Prop
  | .word s => s = w
  | .tree c level => (c.pretty m level).value.Begins w
  | .block _ => False

/-- A plan without atoms is printed as nothing, and otherwise its first atom decides how it
starts. -/
structure Sketch.StartsWithAtom (m : Mode) (s : Sketch) : Prop where
  nothing : s.atoms = [] → s.doc m = .empty
  begins : ∀ a ∈ s.atoms.head?, ∀ w, a.Begins m w → (s.doc m).Begins w

namespace Sketch

variable {m : Mode}

theorem StartsWithAtom.filter {parts : List Sketch} (h : ∀ s ∈ parts, s.StartsWithAtom m)
    {a : Atom} {w : String} (ha : a ∈ (parts.flatMap atoms).head?) (hw : a.Begins m w) :
    ∃ d rest, (parts.map (doc m)).filter (fun d => !d.isEmpty) = d :: rest ∧ d.Begins w := by
  induction parts with
  | nil => simp at ha
  | cons s parts ih =>
    rw [List.forall_mem_cons] at h
    cases hs : s.atoms with
    | nil =>
      rw [List.flatMap_cons, hs] at ha
      rw [List.map_cons, h.1.nothing hs]
      exact ih h.2 ha
    | cons b bs =>
      have hd : (s.doc m).Begins w := h.1.begins a (by simpa [hs] using ha) w hw
      exact ⟨s.doc m, _, List.filter_cons_of_pos (by simp [hd.isEmpty]), hd⟩

theorem StartsWithAtom.pair {f : Doc → Doc → Doc} (hempty : ∀ e, f .empty e = e)
    (hf : ∀ w (d e : Doc), d.Begins w → (f d e).Begins w) {l r s : Sketch} (hl : l.StartsWithAtom m)
    (hr : r.StartsWithAtom m) (hatoms : s.atoms = l.atoms ++ r.atoms)
    (hdoc : s.doc m = f (l.doc m) (r.doc m)) : s.StartsWithAtom m := by
  constructor
  · intro h
    rw [hatoms, List.append_eq_nil_iff] at h
    rw [hdoc, hl.nothing h.1, hempty, hr.nothing h.2]
  · intro a ha w hw
    rw [hatoms] at ha
    rw [hdoc]
    cases h : l.atoms with
    | nil =>
      rw [h] at ha
      rw [hl.nothing h, hempty]
      exact hr.begins a ha w hw
    | cons b bs =>
      apply hf
      exact hl.begins a (by simpa [h] using ha) w hw

theorem startsWithAtom (m : Mode) (s : Sketch) : s.StartsWithAtom m := by
  induction s using Sketch.inductOn with
  | nothing => exact ⟨fun _ => rfl, by simp⟩
  | word s =>
    constructor
    · simp
    · rintro a ⟨rfl⟩ w rfl
      exact .text s
  | tree t level =>
    constructor
    · simp
    · rintro a ⟨rfl⟩ w hw
      exact hw
  | beside l spaced r ihl ihr =>
    exact .pair (fun _ => rfl) (fun _ _ e hd => hd.beside spaced e) ihl ihr rfl rfl
  | upon u l ihu ihl =>
    apply StartsWithAtom.pair (f := m.aboveOrBeside) _ (fun _ _ e hd => hd.aboveOrBeside m e)
      ihu ihl rfl rfl
    intro e
    unfold Mode.aboveOrBeside
    split <;> rfl
  | row arrangement parts ih =>
    constructor
    · intro h
      rw [atoms_row, List.flatMap_eq_nil_iff] at h
      rw [doc_row, ← Doc.isEmpty_iff, Mode.isEmpty_row, List.all_map, List.all_eq_true]
      intro s hs
      simp [(ih s hs).nothing (h s hs)]
    · intro a ha w hw
      rw [atoms_row] at ha
      obtain ⟨d, rest, hfilter, hd⟩ := StartsWithAtom.filter ih ha hw
      rw [doc_row]
      exact hd.row m arrangement hfilter
  | clauses items =>
    constructor
    · intro h
      rw [atoms_clauses, List.map_eq_nil_iff] at h
      rw [doc_clauses, h]
      unfold Mode.clauses
      split <;> rfl
    · intro a ha w hw
      cases items with
      | nil => simp at ha
      | cons t ts =>
        obtain rfl : .tree t 0 = a := by simpa using ha
        exact Doc.Begins.clauses hw m _
  | block indent items => exact ⟨by simp, by rintro a ⟨rfl⟩ w ⟨⟩⟩
  | wheres items =>
    cases items with
    | nil => exact ⟨fun _ => rfl, by simp⟩
    | cons t ts => exact ⟨by simp, by rintro a ⟨rfl⟩ w ⟨⟩⟩
  | topLevel keyword header items ih =>
    constructor
    · simp
    · intro a ha w hw
      obtain rfl : .word keyword = a := by simpa using ha
      obtain rfl : keyword = w := hw
      have hheader : (m.sepFirst (.text keyword :: header.map (doc m))).Begins keyword :=
        (Doc.Begins.text keyword).row m .sepFirst (List.filter_cons_of_pos rfl)
      rw [doc_topLevel]
      exact hheader.topLevel m _

end Sketch

/-! ### Trees -/

theorem begins_markLine {P : String → Prop} (hP : Phrasing P) {m : Mode} {d : Doc} {w : String}
    (hd : d.Begins w) (hw : P w) (loc : Location) : ∃ w, (m.markLine loc d).Begins w ∧ P w := by
  unfold Mode.markLine
  split
  · exact ⟨w, hd, hw⟩
  · split
    · exact ⟨_, (Doc.Begins.text _).above d, hP.own _ (.pragma ..)⟩
    · exact ⟨_, (Doc.Begins.text _).beside true d, hP.own _ (.pragma ..)⟩

theorem Node.begins_marked {P : String → Prop} (hP : Phrasing P) {d : Doc} {w : String}
    (hd : d.Begins w) (hw : P w) (m : Mode) (t : Node) :
    ∃ w, (t.mark?.elim d fun loc => m.markLine loc d).Begins w ∧ P w := by
  cases t.mark? with
  | none => exact ⟨w, hd, hw⟩
  | some loc => exact begins_markLine hP hd hw loc

theorem Node.begins_introduce {P : String → Prop} (hP : Phrasing P) {m : Mode} {t : Node}
    {d : Doc} {w : String} (hd : d.Begins w) (hw : P w) :
    ∃ w, (t.introduce m d).Begins w ∧ if t.isSpaced && m.spaces then w = "" else P w := by
  obtain ⟨w, hmarked, hw⟩ := begins_marked hP hd hw m t
  unfold Node.introduce Mode.blankLine Mode.spaces
  cases t.isSpaced with
  | false => exact ⟨w, hmarked, hw⟩
  | true =>
    cases hm : m.spacing && m.layout != .none with
    | false => exact ⟨w, hmarked, hw⟩
    | true => exact ⟨"", (Doc.Begins.text "").above _, rfl⟩

theorem Node.WellFormed.print_eq {t : Node} (ht : t.WellFormed) (style : Style) (m : Mode)
    (level : Nat) : t.print style m level = .ok ((t.pretty m level).value.render style) := by
  rw [Node.print, (ht.toDoc_eq m level).2]
  rfl

/-- A plan is printed from its margin on if the trees below are. -/
theorem Node.begins_sketch {P : String → Prop} (hP : Phrasing P) {m : Mode} {t : Node}
    (hlack : t.lack? = none) (hw : t.Worded P)
    (hbelow : ∀ c ∈ t.children, ∀ level, ∃ w, (c.pretty m level).value.Begins w ∧
      if c.isSpaced && m.spaces then w = "" else P w)
    (level : Nat) : ∃ w, ((t.sketch level).doc m).Begins w ∧ P w := by
  obtain ⟨a, ha, hleads⟩ := leads_sketch hlack level
  have hbelongs := hw.belongs hP level a (List.mem_of_mem_head? ha)
  have hstart := (Sketch.startsWithAtom m (t.sketch level)).begins a ha
  cases a with
  | word s => exact ⟨s, hstart s rfl, hbelongs⟩
  | tree c l =>
    obtain ⟨hc, hspaced⟩ := hleads
    obtain ⟨w, hbegins, hif⟩ := hbelow c hc l
    rw [hspaced] at hif
    exact ⟨w, hstart w hbegins, hif⟩
  | block items => exact hleads.elim

/-- A tree without a fault is printed from its margin on, first the empty line if one goes before
it. -/
theorem Node.WellFormed.begins {P : String → Prop} (hP : Phrasing P) {t : Node} (ht : t.WellFormed)
    (hw : t.Worded P) (m : Mode) (level : Nat) :
    ∃ w, (t.pretty m level).value.Begins w ∧ if t.isSpaced && m.spaces then w = "" else P w := by
  induction t using Node.inductOn generalizing level with
  | step t ih =>
    obtain ⟨hlack, hbelow⟩ := wellFormed_iff.mp ht
    rw [List.forall_iff_forall_mem] at hbelow
    obtain ⟨w, hbegins, hPw⟩ :=
      begins_sketch hP hlack hw (fun c hc => ih c hc (hbelow c hc) (hw.child hc)) level
    rw [value_pretty m hlack level]
    exact begins_introduce hP hbegins hPw

theorem Node.WellFormed.exists_begins {t : Node} (ht : t.WellFormed) (m : Mode) (level : Nat) :
    ∃ w, (t.pretty m level).value.Begins w := by
  obtain ⟨w, hw, -⟩ := ht.begins phrasing_true t.worded_true m level
  exact ⟨w, hw⟩

end Syntax

end Offside
