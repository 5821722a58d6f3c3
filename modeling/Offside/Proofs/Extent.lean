import Offside.Proofs.OneLine
import Offside.Proofs.Reachable

/-!
# How far a layout reaches

The columns, indents and widths of a run are bounded by the document alone, whatever the page is. A
text moves the cursor by its width, a joint or a line by one, and nesting moves the lines below by
no more than its amount. A document to the right of another is aligned with it first, so its nesting
can tell twice.
-/
namespace Offside

open Doc

mutual

/-- How far nesting moves the lines of a document that stands at an indent. -/
def Doc.shift : Doc → Nat
  | .empty => 0
  | .text _ => 0
  | .nested k d => k.natAbs + d.shift
  | .joined l _ _ => l.shift
  | .stacked u _ l => max u.shift l.shift
  | .grouped _ _ ds => Doc.shifts ds

def Doc.shifts : List Doc → Nat
  | [] => 0
  | d :: ds => max d.shift (Doc.shifts ds)

end

mutual

/-- What a document adds to the columns, with its nesting left out, and to the number of lines. -/
def Doc.span : Doc → Nat
  | .empty => 0
  | .text s => s.length
  | .nested _ d => d.span
  | .joined l spaced r => l.span + gap spaced + (r.span + 2 * r.shift)
  | .stacked u _ l => u.span + (l.span + 1)
  | .grouped _ _ ds => Doc.spans ds

def Doc.spans : List Doc → Nat
  | [] => 0
  | d :: ds => d.span + 1 + Doc.spans ds

end

/-- A bound for all numbers in the layout of a document. -/
def Doc.extent (d : Doc) : Nat := d.shift + d.span

/-! ### Measures -/

theorem natAbs_lead_le_shift (d : Doc) : d.lead.natAbs ≤ d.shift := by
  induction d using Doc.inductOn with
  | empty => exact Nat.le_refl _
  | text s => exact Nat.le_refl _
  | nested k d ih =>
    rw [lead, shift]
    omega
  | joined l spaced r ihl ihr => exact ihl
  | stacked u overlap l ihu ihl => exact Nat.le_trans ihu (Nat.le_max_left ..)
  | grouped fill spaced ds ih =>
    cases ds with
    | nil => exact Nat.le_refl _
    | cons m ms => exact Nat.le_trans (ih m (by simp)) (Nat.le_max_left ..)

theorem first_le_span (d : Doc) : d.first ≤ d.span := by
  induction d using Doc.inductOn with
  | empty => exact Nat.le_refl _
  | text s => exact Nat.le_refl _
  | nested k d ih => exact ih
  | joined l spaced r ihl ihr =>
    rw [first, span]
    split_ifs <;> omega
  | stacked u overlap l ihu ihl =>
    rw [first, span]
    omega
  | grouped fill spaced ds ih =>
    cases ds with
    | nil => exact Nat.le_refl _
    | cons m ms =>
      have := ih m (by simp)
      rw [first, span, spans]
      omega

theorem flatSum?_le_spans {ds : List Doc}
    (hds : ∀ d ∈ ds, ∀ w, d.flat? = some w → w ≤ d.span) {w : Nat} (hw : flatSum? ds = some w) :
    w + ds.length ≤ spans ds := by
  induction ds generalizing w with
  | nil =>
    obtain rfl : 0 = w := by simpa [flatSum?] using hw
    exact Nat.le_refl _
  | cons d ds ih =>
    obtain ⟨hd, hds⟩ := List.forall_mem_cons.mp hds
    obtain ⟨a, b, ha, hb, rfl⟩ := flatSum?_cons_iff.mp hw
    have := hd a ha
    have := ih hds hb
    rw [spans, List.length_cons]
    omega

theorem flat?_le_span {d : Doc} {w : Nat} (hw : d.flat? = some w) : w ≤ d.span := by
  induction d using Doc.inductOn generalizing w with
  | empty =>
    obtain rfl : 0 = w := by simpa [flat?] using hw
    exact Nat.le_refl _
  | text s =>
    obtain rfl : s.length = w := by simpa [flat?] using hw
    exact Nat.le_refl _
  | nested k d ih => exact ih hw
  | joined l spaced r ihl ihr =>
    obtain ⟨a, b, ha, hb, rfl⟩ := flat?_joined_iff.mp hw
    have := ihl ha
    have := ihr hb
    rw [span]
    omega
  | stacked u overlap l ihu ihl => simp [flat?] at hw
  | grouped fill spaced ds ih =>
    obtain ⟨b, hb, rfl⟩ := Option.map_eq_some_iff.mp hw
    have := flatSum?_le_spans (fun d hd w hw => ih d hd hw) hb
    rw [span]
    cases spaced <;> simp [gap] <;> omega

/-! ### Stacks -/

/-- What a task adds to the columns and to the number of lines. -/
def Task.span : Task → Nat
  | .render _ _ d => d.span
  | .align _ d => d.span + 2 * d.shift
  | .space => 1
  | .below _ _ d => d.span + 1
  | .fill _ _ rest _ => Doc.spans rest

/-- How far a task reaches from its indent. -/
def Task.reach : Task → Nat
  | .render indent _ d => indent.natAbs + d.extent
  | .align _ _ => 0
  | .space => 0
  | .below indent _ d => indent.natAbs + d.extent
  | .fill indent _ rest _ => indent.natAbs + (Doc.shifts rest + Doc.spans rest)

def stackSpan : List Task → Nat
  | [] => 0
  | t :: ts => t.span + stackSpan ts

/-- How far the tasks of a stack reach, each with those below it. -/
def stackReach : List Task → Nat
  | [] => 0
  | t :: ts => max (t.reach + stackSpan ts) (stackReach ts)

@[simp] theorem stackSpan_append (ts us : List Task) :
    stackSpan (ts ++ us) = stackSpan ts + stackSpan us := by
  induction ts with
  | nil => simp [stackSpan]
  | cons t ts ih => simp [stackSpan, ih, Nat.add_assoc]

theorem stackReach_append_le (ts us : List Task) :
    stackReach (ts ++ us) ≤ max (stackReach ts + stackSpan us) (stackReach us) := by
  induction ts with
  | nil => simp [stackReach]
  | cons t ts ih =>
    simp only [List.cons_append, stackReach, stackSpan_append]
    omega

theorem stackSpan_skip (spaced : Bool) :
    stackSpan (if spaced then [.space] else []) = gap spaced := by
  cases spaced <;> rfl

theorem stackReach_skip_append_le (spaced : Bool) (ts : List Task) :
    stackReach ((if spaced then [.space] else []) ++ ts) ≤ max (stackSpan ts) (stackReach ts) := by
  cases spaced <;> simp [stackReach, Task.reach]

theorem restOfLine_le_stackSpan (ts : List Task) : restOfLine ts ≤ stackSpan ts := by
  induction ts with
  | nil => exact Nat.le_refl _
  | cons t ts ih =>
    have hahead : ∀ (fit : Fit) (d : Doc), d.ahead fit (restOfLine ts) ≤ d.span + stackSpan ts := by
      intro fit d
      have := first_le_span d
      unfold ahead
      split
      · next w hw =>
        have := flat?_le_span hw
        omega
      · split_ifs <;> omega
    cases t with
    | render indent fit d => exact hahead fit d
    | align fit d =>
      have := hahead fit d
      rw [restOfLine_align, stackSpan, Task.span]
      omega
    | space =>
      rw [restOfLine_space, stackSpan, Task.span]
      omega
    | below indent overlap d => exact Nat.zero_le _
    | fill indent spaced rest startLine =>
      rw [restOfLine_fill, followLast, stackSpan]
      split_ifs <;> omega

theorem stackSpan_flatTasks_le (spaced : Bool) (ds : List Doc) :
    stackSpan (flatTasks spaced ds) ≤ spans ds := by
  fun_induction flatTasks spaced ds with
  | case1 => exact Nat.le_refl _
  | case2 d => simp [stackSpan, Task.span, spans]
  | case3 d ds h ih =>
    rw [List.cons_append, stackSpan, stackSpan_append, stackSpan_skip, Task.span, spans]
    cases spaced <;> simp [gap] <;> omega

theorem stackReach_flatTasks_le (spaced : Bool) (ds : List Doc) :
    stackReach (flatTasks spaced ds) ≤ shifts ds + spans ds := by
  fun_induction flatTasks spaced ds with
  | case1 => exact Nat.le_refl _
  | case2 d =>
    simp only [stackReach, stackSpan, Task.reach, extent, shifts, spans]
    omega
  | case3 d ds h ih =>
    have hspan := stackSpan_flatTasks_le spaced ds
    have hskip := stackReach_skip_append_le spaced (flatTasks spaced ds)
    have hgap : gap spaced ≤ 1 := by cases spaced <;> simp [gap]
    rw [List.cons_append, stackReach, stackSpan_append, stackSpan_skip]
    simp only [Task.reach, extent, shifts, spans]
    omega

theorem stackSpan_belows (indent : Int) (ds : List Doc) :
    stackSpan (ds.map (.below indent true)) = spans ds := by
  induction ds with
  | nil => rfl
  | cons d ds ih => rw [List.map_cons, stackSpan, ih, Task.span, spans]

theorem stackReach_belows_le (indent : Int) (ds : List Doc) :
    stackReach (ds.map (.below indent true)) ≤ indent.natAbs + (shifts ds + spans ds) := by
  induction ds with
  | nil => simp [stackReach]
  | cons d ds ih =>
    rw [List.map_cons, stackReach, stackSpan_belows]
    simp only [Task.reach, extent, shifts, spans]
    omega

/-- What takes the place of a task adds no more than the task. -/
theorem Task.Unfolds.span_le {t : Task} {ts : List Task} (h : t.Unfolds ts) :
    stackSpan ts ≤ t.span := by
  induction h with
  | empty | text | nested | nothing | space | under | filled =>
    simp [stackSpan, Task.span, Doc.span]
  | joined _ _ l spaced r =>
    rw [List.cons_append, stackSpan, stackSpan_append, stackSpan_skip]
    simp only [stackSpan, Task.span, Doc.span]
    omega
  | stacked =>
    simp only [stackSpan, Task.span, Doc.span]
    omega
  | @row _ _ _ spaced ds => exact stackSpan_flatTasks_le spaced ds
  | filling =>
    simp only [stackSpan, Task.span, Doc.span, spans]
    omega
  | column i _ _ _ ms =>
    rw [stackSpan, stackSpan_belows]
    simp only [Task.span, Doc.span, spans]
    omega
  | align _ ih => exact Nat.le_add_right_of_le ih
  | member _ spaced =>
    have hgap : gap spaced ≤ 1 := by cases spaced <;> simp [gap]
    rw [stackSpan_append, stackSpan_skip]
    simp only [stackSpan, Task.span, spans]
    omega
  | lower =>
    simp only [stackSpan, Task.span, spans]
    omega

/-! ### Cursors -/

/-- The line starts on the page, and the cursor is not left of its start. -/
structure Cursor.OnPage (c : Cursor) : Prop where
  lineIndent_nonneg : 0 ≤ c.lineIndent
  lineIndent_le : c.lineIndent ≤ c.column

theorem onPage_write {c : Cursor} (hc : c.OnPage) (s : String) : (c.write s).1.OnPage := by
  have hcolumn := write_column (.leaf s) c
  have hindent := write_lineIndent (.leaf s) c
  have hle := hc.lineIndent_le
  simp only [Piece.write, Piece.width] at hcolumn hindent
  exact ⟨by rw [hindent]; exact hc.lineIndent_nonneg, by omega⟩

theorem Task.Moves.onPage {discipline : Discipline} {c : Cursor} {t : Task} {x : Laid}
    (h : t.Moves discipline c x) (hc : c.OnPage) : x.1.OnPage := by
  cases h with
  | stay => exact hc
  | right n =>
    have hle := hc.lineIndent_le
    refine ⟨hc.lineIndent_nonneg, ?_⟩
    simp only [Cursor.advance]
    omega
  | newline target => cases discipline <;> exact ⟨le_max_right .., le_refl _⟩
  | write => exact onPage_write hc _

theorem start_onPage (discipline : Discipline) (d : Doc) : (Cursor.start discipline d).OnPage :=
  ⟨le_max_right .., le_refl _⟩

theorem Task.Moves.owed_le {discipline : Discipline} {c : Cursor} {t : Task} {x : Laid}
    (h : t.Moves discipline c x) (hc : c.OnPage) (howed : c.owed ≤ c.column + 1) :
    x.1.owed ≤ x.1.column + 1 := by
  cases h with
  | stay => exact howed
  | right n =>
    simp only [Cursor.advance]
    omega
  | newline target => cases discipline <;> simp only [Cursor.newline] <;> omega
  | @write indent fit s _ =>
    have hnonneg := Int.le_trans hc.lineIndent_nonneg hc.lineIndent_le
    unfold Cursor.write
    split_ifs <;> dsimp only <;> omega

/-- A document goes below to where its nesting takes it from its indent. -/
theorem below_column_le (discipline : Discipline) (indent : Int) (overlap : Bool)
    (d : Doc) (c : Cursor) :
    (c.below discipline indent overlap d).1.column ≤ indent.natAbs + d.shift := by
  have hlead := natAbs_lead_le_shift d
  unfold Cursor.below
  dsimp only
  split
  · next h =>
    have hright : c.column < indent + d.lead := of_decide_eq_true (Bool.and_eq_true_iff.mp h).2
    simp only [Cursor.advance]
    omega
  · cases discipline <;> simp only [Cursor.newline] <;> omega

theorem below_line_le (discipline : Discipline) (indent : Int) (overlap : Bool)
    (d : Doc) (c : Cursor) : (c.below discipline indent overlap d).1.line ≤ c.line + 1 := by
  unfold Cursor.below
  dsimp only
  split
  · exact Nat.le_succ _
  · cases discipline <;> simp [Cursor.newline]

/-! ### Steps -/

section

variable (limits : Limits) {c : Cursor} (after : List Task)

theorem renderNode_line (indent : Int) (fit : Fit) (d : Doc) :
    (renderNode limits c after indent fit d).cursor.line = c.line := by
  cases d with
  | text s =>
    simp only [renderNode, Cursor.write]
    split_ifs <;> rfl
  | grouped fill spaced members =>
    simp only [renderNode]
    split
    · rfl
    · cases members with
      | nil => rfl
      | cons m ms => cases fill <;> rfl
  | _ => rfl

theorem renderNode_column_le (indent : Int) (fit : Fit) (d : Doc) :
    (renderNode limits c after indent fit d).cursor.column +
      stackSpan (renderNode limits c after indent fit d).tasks ≤ c.column + d.span := by
  have hspan := (renderNode_unfolds limits c after indent fit d).span_le
  have hstay : (renderNode limits c after indent fit d).cursor = c →
      (renderNode limits c after indent fit d).cursor.column +
        stackSpan (renderNode limits c after indent fit d).tasks ≤ c.column + d.span := by
    intro h
    rw [h]
    simp only [Task.span] at hspan
    omega
  cases d with
  | text s =>
    have := write_column (.leaf s) c
    simp only [Piece.write, Piece.width] at this
    simp only [renderNode, stackSpan, Doc.span, this]
    omega
  | grouped fill spaced members =>
    apply hstay
    simp only [renderNode]
    split
    · rfl
    · cases members with
      | nil => rfl
      | cons m ms => cases fill <;> rfl
  | _ => exact hstay rfl

theorem renderNode_reach_le (indent : Int) (fit : Fit) (d : Doc) :
    stackReach (renderNode limits c after indent fit d).tasks ≤ indent.natAbs + d.extent := by
  cases d with
  | empty => simp [renderNode, stackReach]
  | text s => simp [renderNode, stackReach]
  | nested k d =>
    simp only [renderNode, stackReach, stackSpan, Task.reach, extent, shift, Doc.span]
    omega
  | joined l spaced r =>
    have hskip := stackReach_skip_append_le spaced [.align fit r]
    simp only [renderNode, List.cons_append, stackReach, stackSpan_append,
      stackSpan_skip] at hskip ⊢
    simp only [stackSpan, Task.span, Task.reach, extent, shift, Doc.span] at hskip ⊢
    omega
  | stacked u overlap l =>
    simp only [renderNode, stackReach, stackSpan, Task.span, Task.reach, extent, shift, Doc.span]
    omega
  | grouped fill spaced members =>
    simp only [renderNode, extent, shift, Doc.span]
    split
    · have := stackReach_flatTasks_le spaced members
      dsimp only
      omega
    · cases members with
      | nil => simp [stackReach]
      | cons m ms =>
        cases fill with
        | true =>
          simp only [if_true, stackReach, stackSpan, Task.span, Task.reach, extent, shifts, spans]
          omega
        | false =>
          have := stackReach_belows_le indent ms
          simp only [Bool.false_eq_true, if_false, stackReach, stackSpan_belows, Task.reach, extent,
            shifts, spans]
          omega

/-- In one step the cursor moves right by what the task adds, or goes as far as the task reaches. -/
theorem step_column_le (t : Task) :
    (step limits c after t).cursor.column + stackSpan (step limits c after t).tasks ≤
      max (c.column + t.span) t.reach := by
  cases t with
  | render indent fit d =>
    have := renderNode_column_le limits (c := c) after indent fit d
    simp only [step, Task.span]
    omega
  | align fit d =>
    have := renderNode_column_le limits (c := c) after (c.column - d.lead) fit d
    simp only [step, Task.span]
    omega
  | space =>
    simp only [step, Cursor.advance, stackSpan, Task.span]
    omega
  | below indent overlap d =>
    have := below_column_le limits.discipline indent overlap d c
    simp only [step, stackSpan, Task.span, Task.reach, extent]
    omega
  | fill indent spaced rest startLine =>
    cases rest with
    | nil =>
      simp only [step, fillNext, stackSpan]
      omega
    | cons d ds =>
      simp only [step, fillNext]
      split
      · have hspan := (Task.Unfolds.lower indent spaced d ds startLine c.line).span_le
        have hgap : gap spaced ≤ 1 := by cases spaced <;> simp [gap]
        rw [stackSpan_append, stackSpan_skip]
        simp only [stackSpan, Task.span, spans] at hspan ⊢
        omega
      · have := below_column_le limits.discipline indent true d c
        simp only [stackSpan, Task.span, Task.reach, shifts, spans]
        omega

theorem step_line_le (t : Task) :
    (step limits c after t).cursor.line + stackSpan (step limits c after t).tasks ≤
      c.line + t.span := by
  have hspan := (step_unfolds limits c after t).span_le
  cases t with
  | render indent fit d =>
    have : (step limits c after (.render indent fit d)).cursor.line = c.line := renderNode_line ..
    omega
  | align fit d =>
    have : (step limits c after (.align fit d)).cursor.line = c.line := renderNode_line ..
    omega
  | space =>
    simp only [step, Cursor.advance, stackSpan]
    omega
  | below indent overlap d =>
    have := below_line_le limits.discipline indent overlap d c
    simp only [step, stackSpan, Task.span]
    omega
  | fill indent spaced rest startLine =>
    cases rest with
    | nil =>
      simp only [step, fillNext, stackSpan]
      omega
    | cons d ds =>
      simp only [step, fillNext] at hspan ⊢
      split
      · next h =>
        rw [if_pos h] at hspan
        exact Nat.add_le_add_left hspan _
      · have := below_line_le limits.discipline indent true d c
        simp only [stackSpan, Task.span, spans]
        omega

theorem step_reach_le (hc : c.OnPage) (t : Task) :
    stackReach (step limits c after t).tasks ≤ max (c.column + t.span) t.reach := by
  have hnonneg := Int.le_trans hc.lineIndent_nonneg hc.lineIndent_le
  cases t with
  | render indent fit d =>
    have := renderNode_reach_le limits (c := c) after indent fit d
    simp only [step, Task.reach]
    omega
  | align fit d =>
    have := renderNode_reach_le limits (c := c) after (c.column - d.lead) fit d
    have := natAbs_lead_le_shift d
    simp only [step, Task.span, extent] at *
    omega
  | space =>
    simp only [step, stackReach]
    omega
  | below indent overlap d =>
    simp only [step, stackReach, stackSpan, Task.reach]
    omega
  | fill indent spaced rest startLine =>
    cases rest with
    | nil =>
      simp only [step, fillNext, stackReach]
      omega
    | cons d ds =>
      simp only [step, fillNext]
      split
      · have :=
          stackReach_skip_append_le spaced [.render indent .flat d, .fill indent spaced ds c.line]
        simp only [stackReach, stackSpan, Task.span, Task.reach, extent, shifts, spans] at this ⊢
        omega
      · simp only [stackReach, stackSpan, Task.span, Task.reach, extent, shifts, spans]
        omega

end

/-! ### Runs -/

/-- No number of the state, nor any sum that its next steps form, is larger than `n`. -/
structure State.Bounded (n : Nat) (s : State) : Prop where
  onPage : s.cursor.OnPage
  owed_le : s.cursor.owed ≤ s.cursor.column + 1
  column_le : s.cursor.column + stackSpan s.stack ≤ n
  line_le : s.cursor.line + stackSpan s.stack ≤ n
  reach_le : stackReach s.stack ≤ n

theorem State.Bounded.next {n : Nat} {c : Cursor} {t : Task} {after : List Task}
    (h : State.Bounded n ⟨c, t :: after⟩) (limits : Limits) :
    (State.next limits c t after).Bounded n := by
  obtain ⟨honPage, howed, hcolumn, hline, hreach⟩ := h
  simp only [stackSpan, stackReach] at honPage hcolumn hline hreach
  have hmoves := step_moves limits c after t
  refine ⟨hmoves.onPage honPage, hmoves.owed_le honPage howed, ?_, ?_, ?_⟩
  · have := step_column_le limits (c := c) after t
    simp only [State.next, stackSpan_append]
    omega
  · have := step_line_le limits (c := c) after t
    simp only [State.next, stackSpan_append]
    omega
  · have := step_reach_le limits after honPage t
    have happend := stackReach_append_le (step limits c after t).tasks after
    simp only [State.next]
    omega

/-- The layout of a document is bounded by its extent. -/
theorem start_bounded (style : Style) (d : Doc) : (State.start style d).Bounded d.extent := by
  have hlead := natAbs_lead_le_shift d
  refine ⟨start_onPage _ d, ?_, ?_, ?_, ?_⟩
  · simp only [State.start, Cursor.start]
    split_ifs <;> omega
  · simp only [State.start, Cursor.start, stackSpan, Task.span, extent]
    omega
  · simp only [State.start, Cursor.start, stackSpan, Task.span, extent]
    omega
  · simp [State.start, stackReach, stackSpan, Task.reach]

theorem reachable_bounded {style : Style} {d : Doc} {out : List Chunk} {s : State}
    (h : Reaches style.limits (.start style d) out s) : s.Bounded d.extent :=
  h.keeps (fun hs => hs.next _) (start_bounded style d)

end Offside
