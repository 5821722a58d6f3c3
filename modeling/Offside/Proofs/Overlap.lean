import Offside.Proofs.StackedLines
import Offside.Proofs.Strips

/-!
# A document below another goes on with its last line or starts a new one

Where the upper document ends at or right of the column at which the lower one starts, the two share
no line, and each is laid out as if it were alone. Where it ends left of that column the lower one
may go on with the last line: the cursor is moved to the column, and nothing is written until the
first text of the lower document is.
-/
namespace Offside

open Doc

namespace Doc

/-! ### The first text of a document -/

theorem Solid.leaves_ne_nil {d : Doc} (hd : d.Solid) : d.leaves ≠ [] := by
  induction hd with
  | text s => simp [leaves]
  | nested _ _ ih => exact ih
  | joined _ _ ihl _ => simp [leaves, ihl]
  | stacked _ _ ihu _ => simp [leaves, ihu]
  | @grouped ds fill spaced hlength _ ih =>
    obtain ⟨d, ds, rfl⟩ := List.exists_cons_of_length_pos (by omega : 0 < ds.length)
    simp [leaves, leavesAll, ih d (by simp)]

/-- In a document without empty parts the first leaf is the text that it starts with. -/
theorem Solid.startsWithText {d : Doc} (hd : d.Solid) {s : String} (hs : d.leaves.head? = some s)
    (hne : s ≠ "") : d.startsWithText := by
  induction hd with
  | text t =>
    obtain rfl : t = s := by simpa [leaves] using hs
    simpa [Doc.startsWithText] using hne
  | nested _ _ ih => exact ih hs
  | joined hl _ ihl _ =>
    exact ihl (by rwa [leaves, List.head?_append_of_ne_nil _ hl.leaves_ne_nil] at hs)
  | stacked hu _ ihu _ =>
    exact ihu (by rwa [leaves, List.head?_append_of_ne_nil _ hu.leaves_ne_nil] at hs)
  | @grouped ds fill spaced hlength hds ih =>
    obtain ⟨d, ds, rfl⟩ := List.exists_cons_of_length_pos (by omega : 0 < ds.length)
    refine ih d (by simp) ?_
    rwa [leaves, leavesAll, List.head?_append_of_ne_nil _ (hds d (by simp)).leaves_ne_nil] at hs

/-- The first leaf is written first, after the owed spaces. -/
theorem Solid.lay_first {d : Doc} (hd : d.Solid) {s : String} (hs : d.leaves.head? = some s)
    (hne : s ≠ "") (limits : Limits) (follow : Nat) (indent : Int) (fit : Fit) (c : Cursor) :
    ∃ rest, (d.lay limits follow indent fit c).2 = padding c.owed ++ .text s :: rest := by
  obtain ⟨t, rest, ht, hcs⟩ :=
    lay_startsWithText (hd.startsWithText hs hne) limits follow indent fit c
  have htexts := texts_lay limits d follow indent fit c
  have hpadding : Chunk.texts (padding c.owed) = [] := by
    unfold padding
    split_ifs <;> rfl
  obtain ⟨more, hleaves⟩ : ∃ more, d.leaves = s :: more := by
    cases h : d.leaves with
    | nil => simp [h] at hs
    | cons u more => exact ⟨more, by simpa [h] using hs⟩
  obtain rfl : t = s := by
    rw [hcs, Chunk.texts_append, hpadding, hleaves, visible,
      List.filter_cons_of_pos (by simpa using hne)] at htexts
    exact (List.cons.inj htexts).1
  exact ⟨rest, hcs⟩

/-! ### The end of a document and the start of the next -/

/-- The cursor after a document that is laid out alone. -/
def lastCursor (style : Style) (d : Doc) : Cursor :=
  (d.lay style.limits 0 0 .broken (.start style.discipline d)).1

@[simp] theorem lastCursor_column (style : Style) (d : Doc) :
    (d.lastCursor style).column = d.lastColumn style := rfl

/-- Before a line break a document is laid out as if it were alone. -/
theorem reaches_lastCursor (style : Style) (d : Doc) {after : List Task}
    (hafter : restOfLine after = 0) :
    Reaches style.limits ⟨.start style.discipline d, .render 0 .broken d :: after⟩ (d.chunks style)
      ⟨d.lastCursor style, after⟩ := by
  have h := reaches_layTasks style.limits [.render 0 .broken d] after (.start style.discipline d)
  rw [layTasks_cons, List.nil_append, hafter] at h
  rw [chunks_eq_lay, lastCursor]
  simpa [Task.lay] using h

/-- If the upper document ends left of the column of the lower one, the run comes to the lower one
with nothing more written, its cursor moved to that column. -/
theorem reaches_overlapping (style : Style) {u l : Doc} (h : u.lastColumn style < l.lead) :
    Reaches style.limits (.start style (stacked u true l)) (u.chunks style)
      ⟨(u.lastCursor style).advance (l.lead - u.lastColumn style).toNat,
        [.render 0 .broken l]⟩ := by
  have hbelow : (u.lastCursor style).below style.limits.discipline 0 true l =
      ((u.lastCursor style).advance (l.lead - u.lastColumn style).toNat, []) := by
    rw [Cursor.below, if_pos (by simpa using h), Int.zero_add, lastCursor_column]
  have hstep : step style.limits (u.lastCursor style) [] (.below 0 true l) =
      ⟨[.render 0 .broken l], (u.lastCursor style).advance (l.lead - u.lastColumn style).toNat,
        []⟩ := by
    rw [step, hbelow]
  have hlast : Reaches style.limits ⟨u.lastCursor style, [.below 0 true l]⟩ []
      ⟨(u.lastCursor style).advance (l.lead - u.lastColumn style).toNat,
        [.render 0 .broken l]⟩ := by
    have h := Reaches.step (@Reaches.refl style.limits
      (.next style.limits (u.lastCursor style) (.below 0 true l) []))
    simpa [State.next, hstep] using h
  have hboth := (reaches_lastCursor style u (restOfLine_below 0 true l [])).append hlast
  rw [List.append_nil] at hboth
  exact .step hboth

/-- The first text of the lower document then follows the upper one after some spaces, on a page at
its own column. -/
theorem Solid.chunks_overlapping (style : Style) {u l : Doc} (hl : l.Solid)
    (h : u.lastColumn style < l.lead) {s : String} (hs : l.leaves.head? = some s) (hne : s ≠ "") :
    ∃ n rest, (Doc.stacked u true l).chunks style = u.chunks style ++ .spaces n :: .text s :: rest ∧
      (style.discipline = .page → endColumn (u.chunks style ++ [.spaces n]) = l.lead) := by
  have hreach := reaches_overlapping style h
  generalize hc : (u.lastCursor style).advance (l.lead - u.lastColumn style).toNat = c at hreach
  have hcolumn : c.column = l.lead := by
    rw [← hc]
    simp only [Cursor.advance, lastCursor_column]
    omega
  have howed : c.owed ≠ 0 := by
    rw [← hc]
    simp only [Cursor.advance]
    omega
  obtain ⟨rest, hrest⟩ := hl.lay_first hs hne style.limits 0 0 .broken c
  rw [padding, if_neg howed] at hrest
  refine ⟨c.owed, rest, ?_, fun hpage => ?_⟩
  · have hrun : (Doc.stacked u true l).chunks style =
        u.chunks style ++ run style.limits c [.render 0 .broken l] :=
      hreach.run_eq
    rw [hrun, run_eq_layTasks, layTasks_cons, List.append_nil, Task.lay, restOfLine,
      Laid.andThen_snd, hrest]
    simp
  · have htracks : Tracks (u.chunks style) c :=
      hreach.tracks hpage []
        (by simpa [Tracks, endColumn] using start_owed hpage (Doc.stacked u true l))
    rw [Tracks, hcolumn] at htracks
    rw [← htracks]
    simp [endColumn, Chunk.after, Chunk.width]

end Doc

/-- Of two documents one above the other the lower one starts a line if it must not overlap, and
each is laid out as if it were alone. If it may overlap the same holds where the upper one ends at
its first column or right of it. Where it ends left of it, nothing is written between the two, and
on a page the first text of the lower one stands at its first column. -/
theorem stacking_joins_lines_only_by_overlap {style : Style}
    (hstyle : style.discipline ≠ .oneLine) {u l : Doc} (hu : u.isEmpty = false)
    (hl : l.isEmpty = false) :
    (u.aboveStrict l).chunks style = u.chunks style ++ .newline :: l.chunks style ∧
      ∃ c : Cursor, Reaches style.limits (.start style u) (u.chunks style) ⟨c, []⟩ ∧
        c.column = u.lastColumn style ∧
        (l.lead ≤ c.column → (u.above l).chunks style = (u.aboveStrict l).chunks style) ∧
        (c.column < l.lead →
          Reaches style.limits (.start style (u.above l)) (u.chunks style)
            ⟨c.advance (l.lead - c.column).toNat, [.render 0 .broken l]⟩ ∧
          ∀ s, l.Built → l.leaves.head? = some s → s ≠ "" → ∃ n rest,
            (u.above l).chunks style = u.chunks style ++ .spaces n :: .text s :: rest ∧
            (style.discipline = .page → endColumn (u.chunks style ++ [.spaces n]) = l.lead)) := by
  have hnode : ∀ overlap, u.stack overlap l = .stacked u overlap l := fun overlap => by
    simp [stack, hu, hl]
  have hstrict : (u.aboveStrict l).chunks style = u.chunks style ++ .newline :: l.chunks style := by
    rw [aboveStrict, hnode]
    exact chunks_stacked hstyle (.inl rfl)
  refine ⟨hstrict, u.lastCursor style, reaches_lastCursor style u rfl, rfl,
    fun h => ?_, fun h => ?_⟩
  · rw [hstrict, above, hnode]
    exact chunks_stacked hstyle (.inr h)
  · rw [above, hnode]
    refine ⟨reaches_overlapping style h, fun s hbuilt hs hne => ?_⟩
    have hsolid : l.Solid := hbuilt.sound.solid (by simp [hl])
    exact hsolid.chunks_overlapping style h hs hne

theorem do_goes_on_with_its_statements :
    let u := text "do"
    let l := (group false true [text "x", text "y"]).nest 3
    let style : Style := { lineLength := 4 }
    style.discipline ≠ .oneLine ∧ u.isEmpty = false ∧ l.isEmpty = false ∧ l.Built ∧
      u.lastColumn style < l.lead ∧
      (u.aboveStrict l).chunks style = u.chunks style ++ .newline :: l.chunks style ∧
      ∃ n rest, (u.above l).chunks style = u.chunks style ++ .spaces n :: .text "x" :: rest ∧
        endColumn (u.chunks style ++ [.spaces n]) = l.lead := by
  intro u l style
  have hstyle : style.discipline ≠ .oneLine := by decide
  have hbuilt : l.Built := .nest 3 (.group false true (by simp [Built.text]))
  have hcolumn : u.lastColumn style < l.lead := by decide
  have hu : u.isEmpty = false := rfl
  have hl : l.isEmpty = false := rfl
  obtain ⟨hstrict, c, -, hc, -, hoverlap⟩ := stacking_joins_lines_only_by_overlap hstyle hu hl
  obtain ⟨n, rest, hchunks, hpage⟩ := (hoverlap (hc ▸ hcolumn)).2 "x" hbuilt rfl (by decide)
  exact ⟨hstyle, hu, hl, hbuilt, hcolumn, hstrict, n, rest, hchunks, hpage rfl⟩

end Offside
