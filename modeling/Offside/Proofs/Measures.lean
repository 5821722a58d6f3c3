import Offside.Proofs.Hanging
import Offside.Proofs.Overlap

/-!
# What the measures of a document say

A layout goes by four measures of a document: its width on one line, the nesting of its first line,
the width of that line in the narrowest layout and whether this layout goes on past it. Each is
computed from node to node, with short cuts that rely on how the combinators build. Here each is
compared with a view of the whole document: the documents inside it, its row of pieces, the nestings
around its leaves and what is met in it, part by part, when every group is broken.
-/
namespace Offside

open Doc

/-- The text of some pieces, the spaces at its end kept. -/
def Piece.textOf (ps : List Piece) : String := String.join (ps.map Piece.toText)

theorem length_textOf (ps : List Piece) : (Piece.textOf ps).length = rowWidth ps := by
  induction ps with
  | nil => rfl
  | cons p ps ih =>
    have hp : p.toText.length = p.width := by cases p <;> rfl
    rw [Piece.textOf] at ih
    rw [Piece.textOf, List.map_cons, String.join_cons, String.length_append, ih, hp]
    simp [rowWidth]

namespace Doc

/-! ### The documents inside a document -/

def isStack : Doc → Bool
  | .stacked _ _ _ => true
  | _ => false

def isGroup : Doc → Bool
  | .grouped _ _ _ => true
  | _ => false

/-- The document or one inside of it satisfies `P`. -/
def Contains (P : Doc → Bool) (d : Doc) : Prop := ∃ e : Doc, e.Occurs d ∧ P e

theorem contains_iff {P : Doc → Bool} {d : Doc} :
    d.Contains P ↔ P d ∨ ∃ p ∈ d.parts, p.Contains P := by
  constructor
  · rintro ⟨e, hoccurs, he⟩
    cases hoccurs with
    | here => exact .inl he
    | part hp hinside => exact .inr ⟨_, hp, e, hinside, he⟩
  · rintro (hd | ⟨p, hp, e, hinside, he⟩)
    · exact ⟨d, .here, hd⟩
    · exact ⟨e, .part hp hinside, he⟩

theorem flatSum?_eq_none_iff {ds : List Doc} : flatSum? ds = none ↔ ∃ d ∈ ds, d.flat? = none := by
  induction ds with
  | nil => simp [flatSum?]
  | cons d ds ih =>
    rw [flatSum?, List.exists_mem_cons_iff, ← ih]
    cases d.flat? <;> cases flatSum? ds <;> simp

/-- What cannot stand on one line has one document above another in it. -/
theorem flat?_eq_none_iff (d : Doc) : d.flat? = none ↔ d.Contains isStack := by
  induction d using Doc.inductOn with
  | empty => rw [contains_iff]; simp [parts, flat?, isStack]
  | text s => rw [contains_iff]; simp [parts, flat?, isStack]
  | nested k d ih => rw [contains_iff]; simp [parts, flat?, isStack, ih]
  | joined l spaced r ihl ihr =>
    rw [contains_iff, flat?]
    simp only [isStack, parts, List.exists_mem_cons_iff, ← ihl, ← ihr]
    cases l.flat? <;> cases r.flat? <;> simp
  | stacked u overlap l _ _ => rw [contains_iff]; simp [flat?, isStack]
  | grouped fill spaced ds ih =>
    rw [contains_iff, flat?, Option.map_eq_none_iff, flatSum?_eq_none_iff]
    simp only [isStack, parts, Bool.false_eq_true, false_or]
    exact exists_congr fun d => and_congr_right fun hd => ih d hd

theorem breaks_iff (d : Doc) : d.breaks ↔ d.Contains fun e => e.isStack || e.isGroup := by
  induction d using Doc.inductOn with
  | empty => rw [contains_iff]; simp [parts, breaks, isStack, isGroup]
  | text s => rw [contains_iff]; simp [parts, breaks, isStack, isGroup]
  | nested k d ih => rw [contains_iff]; simp [parts, breaks, isStack, isGroup, ih]
  | joined l spaced r ihl ihr => rw [contains_iff]; simp [parts, breaks, isStack, isGroup, ihl, ihr]
  | stacked u overlap l _ _ => rw [contains_iff]; simp [breaks, isStack]
  | grouped fill spaced ds _ => rw [contains_iff]; simp [breaks, isGroup]

theorem flat?_eq_length {d : Doc} (hd : ¬ d.Contains isStack) :
    d.flat? = some (Piece.textOf d.row).length := by
  obtain ⟨w, hw⟩ := Option.ne_none_iff_exists'.mp (mt (flat?_eq_none_iff d).mp hd)
  rw [length_textOf, rowWidth_row hw, hw]

theorem flat?_of_not_breaks {d : Doc} (hd : ¬ d.breaks) : d.flat? = some d.first := by
  induction d using Doc.inductOn with
  | empty => rfl
  | text s => rfl
  | nested k d ih => exact ih hd
  | joined l spaced r ihl ihr =>
    obtain ⟨hl, hr⟩ : ¬ l.breaks ∧ ¬ r.breaks := by simpa [breaks] using hd
    rw [flat?, ihl hl, ihr hr, first, if_neg hl]
    rfl
  | stacked u overlap l _ _ => exact absurd rfl hd
  | grouped fill spaced ds _ => exact absurd rfl hd

/-! ### The nestings around the leaves -/

mutual

/-- For every leaf, from left to right, the nestings that it stands in. -/
def nests : Doc → List (List Int)
  | .empty => []
  | .text _ => [[]]
  | .nested k d => d.nests.map (k :: ·)
  | .joined l _ r => l.nests ++ r.nests
  | .stacked u _ l => u.nests ++ l.nests
  | .grouped _ _ ds => nestsAll ds

def nestsAll : List Doc → List (List Int)
  | [] => []
  | d :: ds => d.nests ++ nestsAll ds

end

/-- Whatever the combinators build starts with a leaf, and its first line is nested as this leaf
is. -/
theorem Solid.lead_eq {d : Doc} (hd : d.Solid) :
    ∃ ks more, d.nests = ks :: more ∧ d.lead = ks.sum := by
  induction hd with
  | text s => exact ⟨[], [], rfl, rfl⟩
  | @nested k d _ _ ih =>
    obtain ⟨ks, more, hnests, hlead⟩ := ih
    exact ⟨k :: ks, more.map (k :: ·), by rw [nests, hnests, List.map_cons],
      by rw [lead, hlead, List.sum_cons]⟩
  | joined _ _ ihl _ =>
    obtain ⟨ks, more, hnests, hlead⟩ := ihl
    exact ⟨ks, _, by rw [nests, hnests, List.cons_append], hlead⟩
  | stacked _ _ ihu _ =>
    obtain ⟨ks, more, hnests, hlead⟩ := ihu
    exact ⟨ks, _, by rw [nests, hnests, List.cons_append], hlead⟩
  | @grouped ds fill spaced hlength _ ih =>
    obtain ⟨d, ds, rfl⟩ := List.exists_cons_of_length_pos (by omega : 0 < ds.length)
    obtain ⟨ks, more, hnests, hlead⟩ := ih d (by simp)
    exact ⟨ks, _, by rw [nests, nestsAll, hnests, List.cons_append], hlead⟩

/-! ### The first line with every group broken -/

/-- What is met in a document: a piece of a line, or the place where a line may end and a lower
document or a further member of a group begins. -/
inductive Mark where
  | piece (p : Piece)
  | turn

mutual

/-- What is met in a document from its start to its end when every group is broken. -/
def marks : Doc → List Mark
  | .empty => []
  | .text s => [.piece (.leaf s)]
  | .nested _ d => d.marks
  | .joined l spaced r => l.marks ++ (Piece.between spaced).map .piece ++ r.marks
  | .stacked u _ l => u.marks ++ .turn :: l.marks
  | .grouped _ _ [] => []
  | .grouped _ _ (m :: ms) => m.marks ++ marksBelow ms

def marksBelow : List Doc → List Mark
  | [] => []
  | d :: ds => .turn :: d.marks ++ marksBelow ds

end

/-- The pieces before the first turn. -/
def untilTurn : List Mark → List Piece
  | [] => []
  | .piece p :: ms => p :: untilTurn ms
  | .turn :: _ => []

theorem untilTurn_pieces (ps : List Piece) : untilTurn (ps.map .piece) = ps := by
  induction ps with
  | nil => rfl
  | cons p ps ih => rw [List.map_cons, untilTurn, ih]

theorem untilTurn_append_turn (ms ns : List Mark) :
    untilTurn (ms ++ .turn :: ns) = untilTurn ms := by
  fun_induction untilTurn ms with
  | case1 => rfl
  | case2 p ms ih => rw [List.cons_append, untilTurn, ih]
  | case3 ms => rfl

theorem untilTurn_append_of_mem {ms : List Mark} (h : .turn ∈ ms) (ns : List Mark) :
    untilTurn (ms ++ ns) = untilTurn ms := by
  obtain ⟨before, behind, rfl⟩ := List.append_of_mem h
  rw [List.append_assoc, List.cons_append, untilTurn_append_turn, untilTurn_append_turn]

theorem untilTurn_append_of_notMem {ms : List Mark} (h : .turn ∉ ms) (ns : List Mark) :
    untilTurn (ms ++ ns) = untilTurn ms ++ untilTurn ns := by
  fun_induction untilTurn ms with
  | case1 => rfl
  | case2 p ms ih => rw [List.cons_append, untilTurn, ih (by simpa using h), List.cons_append]
  | case3 ms => simp at h

namespace Solid

variable {d : Doc}

/-- A group has a second member, so there is a turn in all that breaks. -/
theorem turn_mem_marks (hd : d.Solid) : .turn ∈ d.marks ↔ d.breaks := by
  induction hd with
  | text s => simp [marks, breaks]
  | nested _ _ ih => exact ih
  | joined _ _ ihl ihr => simp [marks, breaks, ihl, ihr]
  | stacked _ _ _ _ => simp [marks, breaks]
  | @grouped ds fill spaced hlength _ _ =>
    obtain ⟨m, ms, rfl⟩ := List.exists_cons_of_length_pos (by omega : 0 < ds.length)
    obtain ⟨n, ms, rfl⟩ := List.exists_cons_of_length_pos (Nat.le_of_succ_le_succ hlength)
    simp [marks, marksBelow, breaks]

theorem first_eq (hd : d.Solid) : d.first = rowWidth (untilTurn d.marks) := by
  induction hd with
  | text s => simp [first, marks, untilTurn, rowWidth, Piece.width]
  | nested _ _ ih => exact ih
  | @joined l r spaced hl hr ihl ihr =>
    rw [first, marks, List.append_assoc]
    -- the right side stands on the first line only if nothing on the left breaks
    by_cases hbreaks : l.breaks
    · rw [if_pos hbreaks, untilTurn_append_of_mem (hl.turn_mem_marks.mpr hbreaks), ihl]
    · rw [if_neg hbreaks, untilTurn_append_of_notMem (mt hl.turn_mem_marks.mp hbreaks),
        untilTurn_append_of_notMem (by simp), untilTurn_pieces, rowWidth_append, rowWidth_append,
        rowWidth_between, ← ihl, ← ihr, Nat.add_assoc]
  | stacked _ _ ihu _ => rw [first, ihu, marks, untilTurn_append_turn]
  | @grouped ds fill spaced hlength _ ih =>
    obtain ⟨m, ms, rfl⟩ := List.exists_cons_of_length_pos (by omega : 0 < ds.length)
    rw [first, ih m (by simp), marks]
    cases ms with
    | nil => rw [marksBelow, List.append_nil]
    | cons n ms => rw [marksBelow, List.cons_append, untilTurn_append_turn]

end Solid

/-! ### The measures of a sound document -/

/-- The measures of a document say what is seen of it as a whole. -/
structure Measured (d : Doc) : Prop where
  /-- It cannot stand on one line exactly if one document is above another in it. -/
  flat_none : d.flat? = none ↔ d.Contains isStack
  /-- Otherwise its width is that of its text on one line. -/
  flat_some : ¬ d.Contains isStack → d.flat? = some (Piece.textOf d.row).length
  breaks : d.breaks ↔ d.Contains fun e => e.isStack || e.isGroup
  lead_empty : d.isEmpty → d.lead = 0
  /-- It starts with a leaf, and `lead` adds up the nestings around this leaf. -/
  lead : ¬ d.isEmpty → ∃ ks more, d.nests = ks :: more ∧ d.lead = ks.sum
  /-- The first line ends where, with every group broken, a lower document or a second member
  begins. -/
  first : d.first = (Piece.textOf (untilTurn d.marks)).length
  first_unbroken : ¬ d.breaks → d.flat? = some d.first
  first_le : ∀ w, d.flat? = some w → d.first ≤ w

namespace Sound

variable {d e : Doc}

theorem turn_mem_marks (hd : d.Sound) : .turn ∈ d.marks ↔ d.breaks := by
  rcases hd with rfl | hd
  · simp [marks, Doc.breaks]
  · exact hd.turn_mem_marks

theorem first_eq (hd : d.Sound) : d.first = rowWidth (untilTurn d.marks) := by
  rcases hd with rfl | hd
  · rfl
  · exact hd.first_eq

theorem measured (hd : d.Sound) : d.Measured where
  flat_none := flat?_eq_none_iff d
  flat_some := flat?_eq_length
  breaks := breaks_iff d
  lead_empty h := by rw [isEmpty_iff.mp h, Doc.lead]
  lead h := (hd.solid h).lead_eq
  first := by rw [length_textOf, hd.first_eq]
  first_unbroken := flat?_of_not_breaks
  first_le _ := first_le_flat

end Sound

end Doc

/-! ### A layout that breaks every group -/

/-- The task begins a lower document or a further member of a group. -/
def Task.turns : Task → Bool
  | .below _ _ _ => true
  | .fill _ _ rest _ => !rest.isEmpty
  | _ => false

/-- What is still to be met in the documents of a task. -/
def Task.marks : Task → List Mark
  | .render _ _ d | .align _ d => d.marks
  | .space => [.piece .blank]
  | .below _ _ d => .turn :: d.marks
  | .fill _ _ rest _ => marksBelow rest

def stackMarks (ts : List Task) : List Mark := ts.flatMap Task.marks

@[simp] theorem stackMarks_nil : stackMarks [] = [] := rfl

section

variable {limits : Limits} (hnever : ∀ (c : Cursor) (w : Nat), c.fits limits w = false)
include hnever

end

namespace Doc.Built

-- the sequences and brackets of documents come of the same few combinators

variable {l r d separator : Doc} {ds : List Doc}

theorem foldl {op : Doc → Doc → Doc} (hop : ∀ {l r : Doc}, l.Built → r.Built → (op l r).Built)
    (hds : ∀ d ∈ ds, d.Built) : (ds.foldl op .empty).Built :=
  List.foldlRecOn ds op .empty fun _ hd e he => hop hd (hds e he)

theorem hsep (hds : ∀ d ∈ ds, d.Built) : (hsep ds).Built := foldl (.beside true) hds

theorem vcat (hds : ∀ d ∈ ds, d.Built) : (vcat ds).Built := foldl (.stack true) hds

theorem hang (hl : l.Built) (k : Int) (hr : r.Built) : (l.hang k r).Built := by
  refine .group false true ?_
  simpa using ⟨hl, hr.nest k⟩

theorem parens (hd : d.Built) : d.parens.Built :=
  .beside false (.beside false (.text _) hd) (.text _)

theorem punctuate (hseparator : separator.Built) (hds : ∀ d ∈ ds, d.Built) :
    ∀ d ∈ punctuate separator ds, d.Built := by
  fun_induction Doc.punctuate separator ds with
  | case1 => exact hds
  | case2 d => exact hds
  | case3 d ds _ ih =>
    rw [List.forall_mem_cons] at hds ⊢
    exact ⟨.beside false hds.1 hseparator, ih hds.2⟩

end Doc.Built

/-! ### Sizes -/

end Offside
