import Offside.Proofs.Nesting

/-!
# A group that fills its lines is a greedy paragraph

A group of this kind decides about each member when it comes to it: the member goes on the line if
it fits there, and otherwise below. The choice of one line for the whole group adds nothing to this,
since a group that fits as a whole fits member by member. Of words this gives the greedy paragraph,
with the last word keeping room for what follows.
-/
namespace Offside

open Doc

/-! ### Greedy paragraphs -/

/-- Where the lines of a paragraph start and how far they may reach. -/
structure Measure where
  margin : Nat
  lineLength : Nat
  ribbon : Nat

namespace Measure

/-- Whether a line may reach up to a column: the page limits the line, and the ribbon the line
without its margin. -/
def allows (m : Measure) (column : Nat) : Bool :=
  column ≤ m.lineLength && column - m.margin ≤ m.ribbon

/-- The words of a paragraph by lines, after a line that ends at `column`. The next word goes on
that line if it fits there, after a gap, and starts a line if not. The last word has to leave
`follow` columns. -/
def fill (m : Measure) (spaced : Bool) (follow : Nat) :
    Nat → List String → List String → List (List String)
  | _, line, [] => [line]
  | column, line, w :: ws =>
    let reach := column + gap spaced + w.length
    if m.allows (reach + if ws.isEmpty then follow else 0) then
      m.fill spaced follow reach (line ++ [w]) ws
    else line :: m.fill spaced follow (m.margin + w.length) [w] ws

end Measure

/-- The cursor right behind a word on a line of the paragraph. -/
structure Cursor.Behind (margin column : Nat) (c : Cursor) : Prop where
  column_eq : c.column = column
  lineIndent_eq : c.lineIndent = margin
  owed_eq : c.owed = 0
  margin_le : margin ≤ column

/-- A word that does not go on the line starts the next one at the margin. -/
theorem Cursor.Behind.below {margin column : Nat} {c : Cursor}
    (hc : c.Behind margin column) (w : String) :
    c.below .page margin true (.text w) = (⟨margin, margin, margin, c.line + 1⟩, [.newline]) := by
  have hright : ¬ c.column < margin + (Doc.text w).lead := by
    have := hc.column_eq
    have := hc.margin_le
    simp only [lead]
    omega
  rw [Cursor.below, if_neg (by simpa using hright)]
  simp [Cursor.newline, lead]

section

variable {style : Style} (hstyle : style.IsPage)
include hstyle

end

end Offside
