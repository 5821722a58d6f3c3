import Offside.Proofs.Reachable

/-!
# Lines below lines

A layout does not depend on the number of the line that it starts on. So where one document stands
below another on a line of its own, each is laid out as if it were alone: what is written is the
output of the upper one, a line break and the output of the lower one.
-/
namespace Offside

open Doc

/-! ### Layouts further down the page -/

/-- The same place `k` lines further down. -/
def Cursor.later (k : Nat) (c : Cursor) : Cursor := { c with line := c.line + k }

/-- The same layout `k` lines further down. -/
def Laid.later (k : Nat) (x : Laid) : Laid := (x.1.later k, x.2)

@[simp] theorem Laid.later_mk (k : Nat) (c : Cursor) (cs : List Chunk) :
    Laid.later k (c, cs) = (c.later k, cs) := rfl

namespace Cursor

variable (k : Nat) (c : Cursor)

theorem write_later (s : String) : (c.later k).write s = Laid.later k (c.write s) := by
  unfold write
  by_cases hs : s.isEmpty
  · simp [hs]
  · by_cases howed : c.owed = 0 <;> simp [hs, howed, later]

theorem skip_later (spaced : Bool) : (c.later k).skip spaced = (c.skip spaced).later k := by
  cases spaced <;> rfl

theorem newline_later (discipline : Discipline) (target : Int) :
    (c.later k).newline discipline target = Laid.later k (c.newline discipline target) := by
  cases discipline <;> simp [newline, later, Nat.add_right_comm]

theorem below_later (discipline : Discipline) (indent : Int) (overlap : Bool) (d : Doc) :
    (c.later k).below discipline indent overlap d =
      Laid.later k (c.below discipline indent overlap d) := by
  have hcolumn : (c.later k).column = c.column := rfl
  dsimp only [below]
  rw [hcolumn]
  split
  · rfl
  · exact newline_later k c discipline _

end Cursor

theorem Laid.later_andThen {k : Nat} {x : Laid} {f g : Cursor → Laid}
    (h : ∀ c : Cursor, f (c.later k) = (g c).later k) :
    (x.later k).andThen f = (x.andThen g).later k := by
  unfold Laid.andThen
  simp [later, h]

theorem joinsAt_later (limits : Limits) (follow : Nat) (spaced : Bool) (startLine k : Nat) (d : Doc)
    (ds : List Doc) (c : Cursor) :
    joinsAt limits follow spaced (startLine + k) d ds (c.later k) =
      joinsAt limits follow spaced startLine d ds c := by
  have hline : (c.later k).line = startLine + k ↔ c.line = startLine := by
    simp [Cursor.later]
  unfold joinsAt
  rw [decide_eq_decide.mpr hline]
  rfl

section

variable {limits : Limits} {k : Nat} {ds : List Doc}
  (ih : ∀ d ∈ ds, ∀ follow indent fit c,
    d.lay limits follow indent fit (c.later k) = (d.lay limits follow indent fit c).later k)
include ih

theorem layFlat_later (follow : Nat) (spaced : Bool) (c : Cursor) :
    layFlat limits follow spaced ds (c.later k) = (layFlat limits follow spaced ds c).later k := by
  induction ds generalizing c with
  | nil => simp [layFlat]
  | cons d ds ihs =>
    obtain ⟨hd, hds⟩ := List.forall_mem_cons.mp ih
    rw [layFlat, layFlat, Cursor.skip_later, hd]
    exact Laid.later_andThen (ihs hds)

theorem layBelow_later (follow : Nat) (indent : Int) (c : Cursor) :
    layBelow limits follow indent ds (c.later k) =
      (layBelow limits follow indent ds c).later k := by
  induction ds generalizing c with
  | nil => simp [layBelow]
  | cons d ds ihs =>
    obtain ⟨hd, hds⟩ := List.forall_mem_cons.mp ih
    rw [layBelow, layBelow, Cursor.below_later]
    apply Laid.later_andThen
    intro c
    rw [hd]
    exact Laid.later_andThen (ihs hds)

theorem layFill_later (follow : Nat) (indent : Int) (spaced : Bool) (startLine : Nat) (c : Cursor) :
    layFill limits follow indent spaced (startLine + k) ds (c.later k) =
      (layFill limits follow indent spaced startLine ds c).later k := by
  induction ds generalizing startLine c with
  | nil => simp [layFill]
  | cons d ds ihs =>
    obtain ⟨hd, hds⟩ := List.forall_mem_cons.mp ih
    rw [layFill, layFill, joinsAt_later]
    by_cases hjoins : joinsAt limits follow spaced startLine d ds c = true
    · rw [if_pos hjoins, if_pos hjoins, Cursor.skip_later, hd]
      exact Laid.later_andThen (ihs hds c.line)
    · rw [if_neg hjoins, if_neg hjoins, Cursor.below_later]
      apply Laid.later_andThen
      intro c
      rw [hd]
      exact Laid.later_andThen (ihs hds c.line)

end

/-- The layout of a document is the same on every line. -/
theorem Doc.lay_later (limits : Limits) (k : Nat) (d : Doc) (follow : Nat) (indent : Int)
    (fit : Fit) (c : Cursor) :
    d.lay limits follow indent fit (c.later k) = (d.lay limits follow indent fit c).later k := by
  induction d using Doc.inductOn generalizing follow indent fit c with
  | empty => simp [lay]
  | text s => simpa [lay] using Cursor.write_later k c s
  | nested j d ih => simpa [lay] using ih follow (indent + j) fit c
  | joined l spaced r ihl ihr =>
    rw [lay, lay, ihl]
    apply Laid.later_andThen
    intro c
    rw [Cursor.skip_later]
    exact ihr _ _ _ _
  | stacked u overlap l ihu ihl =>
    rw [lay, lay, ihu]
    apply Laid.later_andThen
    intro c
    rw [Cursor.below_later]
    exact Laid.later_andThen (ihl _ _ _)
  | grouped fill spaced ds ih =>
    cases ds with
    | nil => simp [lay]
    | cons d ds =>
      obtain ⟨hd, hds⟩ := List.forall_mem_cons.mp ih
      have hfits : ∀ w, (c.later k).fits limits w = c.fits limits w := fun _ => rfl
      rw [lay, lay]
      simp only [hfits, hd]
      split
      · exact Laid.later_andThen (layFlat_later hds _ _)
      · apply Laid.later_andThen
        intro c'
        split
        · exact layFill_later hds _ _ _ _ _
        · exact layBelow_later hds _ _ _

/-! ### Columns are never negative -/

theorem newline_column (discipline : Discipline) (target : Int) (c : Cursor) :
    (c.newline discipline target).1.column = max target 0 := by
  cases discipline <;> rfl

theorem Task.Moves.column_nonneg {discipline : Discipline} {c : Cursor} {t : Task} {x : Laid}
    (h : t.Moves discipline c x) (hc : 0 ≤ c.column) : 0 ≤ x.1.column := by
  cases h with
  | stay => exact hc
  | right n =>
    simp only [Cursor.advance]
    omega
  | newline target =>
    rw [newline_column]
    exact Int.le_max_right ..
  | @write _ _ s =>
    simp only [Cursor.write]
    split_ifs <;> dsimp only <;> omega

theorem step_nonneg {limits : Limits} {c : Cursor} (hc : 0 ≤ c.column) (t : Task)
    (after : List Task) :
    0 ≤ (step limits c after t).cursor.column := (step_moves limits c after t).column_nonneg hc

/-- The column after the last text of a document, with the spaces that are still owed. -/
def Doc.lastColumn (style : Style) (d : Doc) : Int :=
  (d.lay style.limits 0 0 .broken (.start style.discipline d)).1.column

theorem Doc.lastColumn_nonneg (style : Style) (d : Doc) : 0 ≤ d.lastColumn style := by
  have hreaches :=
    reaches_layTasks style.limits [.render 0 .broken d] [] (.start style.discipline d)
  have hstart : 0 ≤ (Cursor.start style.discipline d).column := by
    simp only [Cursor.start]
    omega
  have hend :=
    hreaches.keeps (P := fun s => 0 ≤ s.cursor.column) (fun h => step_nonneg h _ _) hstart
  simpa [lastColumn, Task.lay, restOfLine] using hend

/-! ### Stacked documents -/

/-- A document below another one on a line of its own is laid out as if it were alone, and so is the
upper one. -/
theorem Doc.chunks_stacked {style : Style} (hstyle : style.discipline ≠ .oneLine) {u l : Doc}
    {overlap : Bool} (h : overlap = false ∨ l.lead ≤ u.lastColumn style) :
    (stacked u overlap l).chunks style = u.chunks style ++ .newline :: l.chunks style := by
  have hbelow : ∀ c : Cursor, overlap = false ∨ l.lead ≤ c.column →
      c.below style.limits.discipline 0 overlap l =
        ((Cursor.start style.discipline l).later (c.line + 1), [.newline]) := by
    intro c hc
    have hdiscipline : style.limits.discipline = style.discipline := rfl
    rw [Cursor.below, if_neg, Int.zero_add, hdiscipline]
    · cases hs : style.discipline with
      | page => simp [Cursor.newline, Cursor.start, Cursor.later]
      | left => simp [Cursor.newline, Cursor.start, Cursor.later]
      | oneLine => exact absurd hs hstyle
    · rintro hoverlap
      simp only [Bool.and_eq_true, decide_eq_true_eq, Int.zero_add] at hoverlap
      rcases hc with hc | hc
      · simp [hc] at hoverlap
      · omega
  have hstart : Cursor.start style.discipline (stacked u overlap l) = .start style.discipline u :=
    rfl
  rw [chunks_eq_lay, chunks_eq_lay, chunks_eq_lay, hstart, lay, Laid.andThen_snd, hbelow _ h,
    Laid.andThen_snd, Doc.lay_later]
  rfl

end Offside
