import Offside.Proofs.Strips
import Offside.Pretty.Block

/-!
# Every part of a document is laid out

The documents inside a document are those that its combinators were applied to. A run comes to each
of them: whatever a task leaves undone is on the stack after it.
-/
namespace Offside

open Doc

namespace Doc

/-- The documents that a node is put together from. -/
def parts : Doc → List Doc
  | .empty => []
  | .text _ => []
  | .nested _ d => [d]
  | .joined l _ r => [l, r]
  | .stacked u _ l => [u, l]
  | .grouped _ _ ds => ds

/-- The document `e` is the whole of another one or inside of it. -/
inductive Occurs (e : Doc) : Doc → Prop where
  | here : Occurs e e
  | part {d p : Doc} (mem : p ∈ d.parts) (inside : Occurs e p) : Occurs e d

theorem Occurs.trans {a b d : Doc} (hab : a.Occurs b) (hbd : b.Occurs d) : a.Occurs d := by
  induction hbd with
  | here => exact hab
  | part mem _ ih => exact .part mem ih

end Doc

/-- The documents that a task has to lay out. -/
def Task.docs : Task → List Doc
  | .render _ _ d => [d]
  | .align _ d => [d]
  | .space => []
  | .below _ _ d => [d]
  | .fill _ _ rest _ => rest

section

variable (limits : Limits) (c : Cursor) (after : List Task)

end

namespace Doc

theorem isEmpty_iff {d : Doc} : d.isEmpty = true ↔ d = .empty := by
  cases d <;> simp [isEmpty]

theorem isEmpty_of_ne {d : Doc} (h : d ≠ .empty) : d.isEmpty = false := by
  rw [← Bool.not_eq_true, isEmpty_iff]
  exact h

theorem nest_of_ne {d : Doc} (h : d ≠ .empty) {k : Int} (hk : k ≠ 0) : d.nest k = .nested k d := by
  rw [nest, if_neg]
  simp [isEmpty_of_ne h, hk]

theorem Occurs.ne_empty {d e : Doc} (h : e.Occurs d) (he : e ≠ .empty) : d ≠ .empty := by
  rintro rfl
  cases h with
  | here => exact he rfl
  | part mem _ => simp [parts] at mem

namespace Occurs

variable {e : Doc} {l r d : Doc} {ds : List Doc}

theorem beside_left (he : e ≠ .empty) (h : e.Occurs l) (spaced : Bool) (r : Doc) :
    e.Occurs (l.beside spaced r) := by
  have hl := h.ne_empty he
  unfold Doc.beside
  split_ifs with hempty
  · exact absurd (isEmpty_iff.mp hempty) hl
  · exact h
  · exact .part (by simp [parts]) h

theorem beside_right (he : e ≠ .empty) (l : Doc) (spaced : Bool) (h : e.Occurs r) :
    e.Occurs (l.beside spaced r) := by
  have hr := h.ne_empty he
  unfold Doc.beside
  split_ifs with _ hempty
  · exact h
  · exact absurd (isEmpty_iff.mp hempty) hr
  · exact .part (by simp [parts]) h

theorem stack_upper (he : e ≠ .empty) (h : e.Occurs l) (overlap : Bool) (r : Doc) :
    e.Occurs (l.stack overlap r) := by
  have hl := h.ne_empty he
  unfold Doc.stack
  split_ifs with hempty
  · exact absurd (isEmpty_iff.mp hempty) hl
  · exact h
  · exact .part (by simp [parts]) h

theorem stack_lower (he : e ≠ .empty) (l : Doc) (overlap : Bool) (h : e.Occurs r) :
    e.Occurs (l.stack overlap r) := by
  have hr := h.ne_empty he
  unfold Doc.stack
  split_ifs with _ hempty
  · exact h
  · exact absurd (isEmpty_iff.mp hempty) hr
  · exact .part (by simp [parts]) h

theorem nest (h : e.Occurs d) (k : Int) : e.Occurs (d.nest k) := by
  unfold Doc.nest
  split
  · exact h
  · exact .part (by simp [parts]) h

theorem group (he : e ≠ .empty) (hd : d ∈ ds) (h : e.Occurs d) (fill spaced : Bool) :
    e.Occurs (group fill spaced ds) := by
  have hmem : d ∈ ds.filter fun d => !d.isEmpty := by
    rw [List.mem_filter]
    exact ⟨hd, by simp [isEmpty_of_ne (h.ne_empty he)]⟩
  unfold Doc.group
  split
  · next hnil => simp [hnil] at hmem
  · next f hone =>
    rw [hone] at hmem
    obtain rfl := List.mem_singleton.mp hmem
    exact h
  · exact .part hmem h

theorem foldl_above (he : e ≠ .empty) (h : e.Occurs d) : e.Occurs (ds.foldl Doc.above d) := by
  induction ds generalizing d with
  | nil => exact h
  | cons f ds ih => exact ih (stack_upper he h true f)

theorem vcat (he : e ≠ .empty) (hd : d ∈ ds) (h : e.Occurs d) : e.Occurs (vcat ds) := by
  obtain ⟨before, after, rfl⟩ := List.append_of_mem hd
  rw [Doc.vcat, List.foldl_append, List.foldl_cons]
  exact foldl_above he (stack_lower he _ true h)

end Occurs

end Doc

namespace Mode

variable {m : Mode} {e d : Doc} {ds : List Doc}

theorem isVertical_of_offside (hm : m.layout = .offside) : m.isVertical = true := by
  rw [isVertical, hm]
  rfl

theorem occurs_fill (hm : m.layout = .offside) (he : e ≠ .empty) (hd : d ∈ ds) (h : e.Occurs d) :
    e.Occurs (m.fill ds) := by
  rw [fill, if_pos (isVertical_of_offside hm)]
  exact h.group he hd true true

theorem occurs_lines (hm : m.layout = .offside) (he : e ≠ .empty) (hd : d ∈ ds) (h : e.Occurs d) :
    e.Occurs (m.lines ds) := by
  rw [lines, if_pos (isVertical_of_offside hm)]
  exact h.vcat he hd

theorem occurs_sepFirst (hm : m.layout = .offside) (he : e ≠ .empty) (hd : d ∈ ds)
    (h : e.Occurs d) : e.Occurs (m.sepFirst ds) := by
  have hmem : d ∈ ds.filter fun d => !d.isEmpty := by
    rw [List.mem_filter]
    exact ⟨hd, by simp [isEmpty_of_ne (h.ne_empty he)]⟩
  rw [sepFirst, if_pos (isVertical_of_offside hm)]
  split
  · next hnil => simp [hnil] at hmem
  · next f fs heq =>
    rw [heq] at hmem
    rcases List.mem_cons.mp hmem with rfl | hmem
    · exact h.beside_left he true _
    · exact .beside_right he _ true (h.group he hmem true true)

theorem occurs_fillOnside (hm : m.layout = .offside) (he : e ≠ .empty) (hd : d ∈ ds)
    (h : e.Occurs d) : e.Occurs (m.fillOnside ds) := by
  have hmem : d ∈ ds.filter fun d => !d.isEmpty := by
    rw [List.mem_filter]
    exact ⟨hd, by simp [isEmpty_of_ne (h.ne_empty he)]⟩
  rw [fillOnside, if_pos (isVertical_of_offside hm)]
  split
  · next hnil => simp [hnil] at hmem
  · next f fs heq =>
    rw [heq] at hmem
    refine Occurs.nest ?_ _
    rcases List.mem_cons.mp hmem with rfl | hmem
    · exact (h.nest (-Mode.columns m.onsideIndent)).group he (by simp) true true
    · exact h.group he (by simp [hmem]) true true

theorem occurs_aboveOrBeside_upper (hm : m.layout = .offside) (he : e ≠ .empty) (h : e.Occurs d)
    (lower : Doc) : e.Occurs (m.aboveOrBeside d lower) := by
  rw [aboveOrBeside, if_pos (isVertical_of_offside hm)]
  exact h.stack_upper he true lower

theorem occurs_aboveOrBeside_lower (hm : m.layout = .offside) (he : e ≠ .empty) (upper : Doc)
    (h : e.Occurs d) : e.Occurs (m.aboveOrBeside upper d) := by
  rw [aboveOrBeside, if_pos (isVertical_of_offside hm)]
  exact h.stack_lower he upper true

theorem occurs_block (hm : m.layout = .offside) (h : e.Occurs (vcat ds)) (indent : Nat) :
    e.Occurs (m.block indent ds) := by
  rw [block, hm]
  exact h.nest _

theorem occurs_whereClause (hm : m.layout = .offside) (he : e ≠ .empty) (h : e.Occurs (vcat ds)) :
    e.Occurs (m.whereClause ds) := by
  cases ds with
  | nil => exact absurd rfl (h.ne_empty he)
  | cons d ds =>
    rw [whereClause, if_neg (by simp)]
    exact (occurs_aboveOrBeside_lower hm he _ (occurs_block hm h _)).nest _

theorem occurs_markLine (hm : m.layout = .offside) (he : e ≠ .empty) (loc : Syntax.Location)
    (h : e.Occurs d) : e.Occurs (m.markLine loc d) := by
  unfold markLine
  split
  · exact h
  · rw [if_pos (isVertical_of_offside hm)]
    exact h.stack_lower he _ true

theorem occurs_blankLine (he : e ≠ .empty) (h : e.Occurs d) : e.Occurs (m.blankLine d) := by
  unfold blankLine
  split
  · exact h.stack_lower he _ true
  · exact h

end Mode

end Offside
