import Offside.Proofs.Onside
import Offside.Proofs.TextOrder

/-!
# Documents one below the other at a column

A stacked document whose sides start at one column falls into strips. If each strip keeps its lines
to the right of that column, then on a page every strip starts a line at the column, wherever the
machine comes to lay the document out.
-/
namespace Offside

open Doc

/-- The parts of a document that stand one below the other at its first column. -/
def Doc.strips : Doc → List Doc
  | .stacked u true l => if l.lead = u.lead then u.strips ++ l.strips else [.stacked u true l]
  | d => [d]

/-- A strip is an empty line, or it starts with a text and begins all its other lines right of
it. -/
def Doc.IsStrip (d : Doc) : Prop := d.lead = 0 ∧ (d = .text "" ∨ d.startsWithText ∧ d.Clears 1)

/-- The pieces `cs` of a document, written after the pieces `out`. They hold its texts, the first of
them stands at the column, and the lines that they begin start right of it. An empty line has no
pieces. -/
structure Hangs (column : Nat) (out : List Chunk) (d : Doc) (cs : List Chunk) : Prop where
  texts : Chunk.texts cs = visible d.leaves
  starts : d = .text "" ∧ cs = [] ∨
    ∃ n s rest, cs = padding n ++ .text s :: rest ∧ s ≠ "" ∧ endColumn out + n = column
  right : ∀ n ∈ lineStarts cs, column < n

/-- Documents written after the pieces `out`, each of them at the column, with one line break and
nothing else between two of them. -/
inductive Listed (column : Nat) : List Chunk → List Doc → List Chunk → Prop where
  | last {out : List Chunk} {d : Doc} {cs : List Chunk} (hangs : Hangs column out d cs) :
      Listed column out [d] cs
  | cons {out : List Chunk} {d : Doc} {cs : List Chunk} {ds : List Doc} {more : List Chunk}
      (hangs : Hangs column out d cs) (rest : Listed column (out ++ cs ++ [.newline]) ds more) :
      Listed column out (d :: ds) (cs ++ .newline :: more)

theorem Listed.append {column : Nat} {out cs more : List Chunk} {ds es : List Doc}
    (hds : Listed column out ds cs) (hes : Listed column (out ++ cs ++ [.newline]) es more) :
    Listed column out (ds ++ es) (cs ++ .newline :: more) := by
  induction hds with
  | last hangs => exact .cons hangs hes
  | @cons out d cs ds rest hangs _ ih =>
    have hrest := ih (by simpa using hes)
    simpa using Listed.cons hangs hrest

/-! ### The texts of a layout -/

section

variable {limits : Limits} {ds : List Doc}
  (ih : ∀ d ∈ ds, ∀ (follow : Nat) (indent : Int) (fit : Fit) (c : Cursor),
  Chunk.texts (d.lay limits follow indent fit c).2 = visible d.leaves)
include ih

theorem texts_layFlat (follow : Nat) (spaced : Bool) (c : Cursor) :
    Chunk.texts (layFlat limits follow spaced ds c).2 = visible (leavesAll ds) := by
  induction ds generalizing c with
  | nil => rfl
  | cons d ds ihs =>
    obtain ⟨hd, hds⟩ := List.forall_mem_cons.mp ih
    rw [layFlat, Laid.andThen_snd, Chunk.texts_append, hd, ihs hds, leavesAll, visible_append]

theorem texts_layBelow (follow : Nat) (indent : Int) (c : Cursor) :
    Chunk.texts (layBelow limits follow indent ds c).2 = visible (leavesAll ds) := by
  induction ds generalizing c with
  | nil => rfl
  | cons d ds ihs =>
    obtain ⟨hd, hds⟩ := List.forall_mem_cons.mp ih
    rw [layBelow, Laid.andThen_snd, Laid.andThen_snd, Chunk.texts_append, Chunk.texts_append,
      texts_below, hd, ihs hds, leavesAll, visible_append, List.nil_append]

theorem texts_layFill (follow : Nat) (indent : Int) (spaced : Bool) (startLine : Nat) (c : Cursor) :
    Chunk.texts (layFill limits follow indent spaced startLine ds c).2 =
      visible (leavesAll ds) := by
  induction ds generalizing c startLine with
  | nil => rfl
  | cons d ds ihs =>
    obtain ⟨hd, hds⟩ := List.forall_mem_cons.mp ih
    rw [layFill, leavesAll, visible_append]
    split
    · rw [Laid.andThen_snd, Chunk.texts_append, hd, ihs hds]
    · rw [Laid.andThen_snd, Laid.andThen_snd, Chunk.texts_append, Chunk.texts_append,
        texts_below, hd, ihs hds, List.nil_append]

end

/-- The layout of a document writes its texts and no others. -/
theorem texts_lay (limits : Limits) (d : Doc) (follow : Nat) (indent : Int)
    (fit : Fit) (c : Cursor) :
    Chunk.texts (d.lay limits follow indent fit c).2 = visible d.leaves := by
  induction d using Doc.inductOn generalizing follow indent fit c with
  | empty => rfl
  | text s => exact texts_write s c
  | nested k d ih => exact ih ..
  | joined l spaced r ihl ihr =>
    rw [Doc.lay, Laid.andThen_snd, Chunk.texts_append, ihl, ihr, leaves, visible_append]
  | stacked u overlap l ihu ihl =>
    rw [Doc.lay, Laid.andThen_snd, Laid.andThen_snd, Chunk.texts_append, Chunk.texts_append,
      texts_below, ihu, ihl, leaves, visible_append, List.nil_append]
  | grouped fill spaced ds ih =>
    cases ds with
    | nil => rfl
    | cons m ms =>
      obtain ⟨hm, hms⟩ := List.forall_mem_cons.mp ih
      rw [Doc.lay, leaves, leavesAll, visible_append]
      split
      · rw [Laid.andThen_snd, Chunk.texts_append, hm, texts_layFlat hms]
      · rw [Laid.andThen_snd, Chunk.texts_append, hm]
        split
        · rw [texts_layFill hms]
        · rw [texts_layBelow hms]

/-! ### Strips one below the other -/

theorem endColumn_newline (out : List Chunk) : endColumn (out ++ [.newline]) = 0 := by
  simp [endColumn, Chunk.after]

theorem foldl_after {cs : List Chunk} (h : .newline ∉ cs) (n : Nat) :
    cs.foldl Chunk.after n = n + chunksWidth cs := by
  induction cs generalizing n with
  | nil => rfl
  | cons chunk cs ih =>
    rw [List.mem_cons, not_or] at h
    rw [List.foldl_cons, ih h.2]
    cases chunk with
    | newline => exact absurd rfl h.1
    | _ => simp [Chunk.after, chunksWidth, Nat.add_assoc]

section

variable {limits : Limits} {follow column : Nat} {indent : Int} {fit : Fit} {out : List Chunk}
  {c : Cursor} {d : Doc}

/-- A strip hangs from the column where it starts if its layout stays right of it. What is stacked
below does not fit left of its end either. -/
theorem Doc.IsStrip.hangs (hd : d.IsStrip) (hcol : c.column = column)
    (hout : endColumn out + c.owed = column)
    (hstays : d.startsWithText → d.Clears 1 →
      Stays (column + 1) false (d.lay limits follow indent fit c)) :
    Hangs column out d (d.lay limits follow indent fit c).2 ∧
    column ≤ (d.lay limits follow indent fit c).1.column := by
  obtain ⟨-, rfl | ⟨htext, hclears⟩⟩ := hd
  · exact ⟨⟨texts_lay .., .inl ⟨rfl, rfl⟩, by simp [Doc.lay, Cursor.write, lineStarts, startsFrom]⟩,
      by simp [Doc.lay, Cursor.write, hcol]⟩
  · have hright := hstays htext hclears
    obtain ⟨s, rest, hs, hcs⟩ := lay_startsWithText htext limits follow indent fit c
    refine ⟨⟨texts_lay .., .inr ⟨c.owed, s, rest, hcs, hs, hout⟩, fun n hn => ?_⟩, ?_⟩
    · have := hright.starts n hn
      omega
    · have := hright.column
      omega

end

/-! ### The column of a document on the stack -/

/-- The documents of a task clear the left edge, and what has to stay on one line can. -/
def Task.Clear : Task → Prop
  | .render indent fit d =>
    (fit = .flat → ∃ w, d.flat? = some w) ∧ (fit = .broken → d.Clears (-indent))
  | .align fit d => (fit = .flat → ∃ w, d.flat? = some w) ∧ (fit = .broken → d.Clears d.lead)
  | .space => True
  | .below indent _ d => -indent ≤ d.lead ∧ d.Clears (-indent)
  | .fill indent _ rest _ => ∀ d ∈ rest, -indent ≤ d.lead ∧ d.Clears (-indent)

/-- A document that may take several lines is laid out from its own column. -/
def Task.Placed (c : Cursor) : Task → Prop
  | .render indent .broken d => c.column = indent + d.lead
  | _ => True

/-- The task on top is in place, and those below it are in place wherever it ends. -/
structure State.Clear (s : State) : Prop where
  column : 0 ≤ s.cursor.column
  tasks : ∀ t ∈ s.stack, t.Clear
  top : ∀ t ∈ s.stack.head?, t.Placed s.cursor
  rest : ∀ t ∈ s.stack.tail, ∀ c, t.Placed c

theorem State.Clear.nil {c : Cursor} (hcol : 0 ≤ c.column) : State.Clear ⟨c, []⟩ :=
  ⟨hcol, by simp, by simp, by simp⟩

theorem State.Clear.cons {c : Cursor} {t : Task} {ts : List Task} (hcol : 0 ≤ c.column)
    (ht : t.Clear) (hplaced : t.Placed c) (hts : ∀ u ∈ ts, u.Clear ∧ ∀ c, u.Placed c) :
    State.Clear ⟨c, t :: ts⟩ :=
  ⟨hcol, List.forall_mem_cons.mpr ⟨ht, fun u hu => (hts u hu).1⟩, by simpa using hplaced,
    fun u hu => (hts u hu).2⟩

theorem State.Clear.of_waiting {c : Cursor} {ts : List Task} (hcol : 0 ≤ c.column)
    (hts : ∀ t ∈ ts, t.Clear ∧ ∀ c, t.Placed c) : State.Clear ⟨c, ts⟩ := by
  cases ts with
  | nil => exact .nil hcol
  | cons t ts =>
    obtain ⟨ht, hts⟩ := List.forall_mem_cons.mp hts
    exact .cons hcol ht.1 (ht.2 c) hts

theorem State.Clear.append {c : Cursor} {ts after : List Task} (hts : State.Clear ⟨c, ts⟩)
    (hafter : ∀ t ∈ after, t.Clear ∧ ∀ c, t.Placed c) : State.Clear ⟨c, ts ++ after⟩ := by
  cases ts with
  | nil => exact .of_waiting hts.column hafter
  | cons t ts =>
    refine .cons hts.column (hts.tasks t (by simp)) (hts.top t rfl) ?_
    exact List.forall_mem_append.mpr ⟨fun u hu => ⟨hts.tasks u (by simp [hu]),
      hts.rest u hu⟩, hafter⟩

/-- The width of the last line of what is written, with the owed spaces, is the column. -/
def Tracks (out : List Chunk) (c : Cursor) : Prop := endColumn out + c.owed = c.column

theorem tracks_of_onLine {c : Cursor} {x : Laid} (hx : OnLine c x) {out : List Chunk}
    (hout : Tracks out c) : Tracks (out ++ x.2) x.1 := by
  obtain ⟨hnew, -, hwidth⟩ := hx
  simp only [Tracks, endColumn, List.foldl_append, foldl_after hnew] at hout ⊢
  omega

theorem tracks_of_onNewLine {x : Laid} (hx : OnNewLine x) (out : List Chunk) :
    Tracks (out ++ x.2) x.1 := by
  obtain ⟨hnew, -, howed⟩ := hx
  rw [Tracks, hnew, endColumn_newline, howed]
  simp

theorem Reaches.tracks {limits : Limits} (hpage : limits.discipline = .page) {a b : State}
    {out : List Chunk} (h : Reaches limits a out b) (before : List Chunk)
    (ha : Tracks before a.cursor) : Tracks (before ++ out) b.cursor := by
  induction h generalizing before with
  | refl => simpa using ha
  | @step c t after out s _ ih =>
    rw [← List.append_assoc]
    refine ih _ ?_
    rcases step_onLine_or hpage c after t with hx | hx
    · exact tracks_of_onLine hx ha
    · exact tracks_of_onNewLine hx before

/-- In the run that lays out `d`, the document `e` is laid out after the pieces `out`, as the pieces
`cs`. -/
def Writes (style : Style) (d e : Doc) (out cs : List Chunk) : Prop :=
  ∃ c t after indent fit c', Reaches style.limits (.start style d) out ⟨c, t :: after⟩ ∧
    t.Begins c indent fit e ∧
    Reaches style.limits ⟨c, t :: after⟩ cs ⟨c', after⟩

theorem Writes.chunks_eq {style : Style} {d e : Doc} {out cs : List Chunk}
    (h : Writes style d e out cs) : ∃ rest, d.chunks style = out ++ cs ++ rest := by
  obtain ⟨c, t, after, indent, fit, c', hreach, -, hwritten⟩ := h
  refine ⟨run style.limits c' after, ?_⟩
  exact (hreach.append hwritten).run_eq

end Offside
