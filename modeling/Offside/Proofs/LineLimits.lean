import Offside.Proofs.Built
import Offside.Proofs.MachineWords

/-!
# No line is made too wide by choice

At any time the machine is committed to the width that is on its line and to what must follow there
in the narrowest layout. A choice for one line is made only where the commitment stays within the
page and the ribbon, so on a line it grows past them only where a document is moved right to stand
below another. Every other line that is too wide was too wide when it began.
-/
namespace Offside

open Doc

/-- Whether the line has room for `w` more columns. -/
def Cursor.HasRoom (limits : Limits) (c : Cursor) (w : Nat) : Prop :=
  c.column + w ≤ limits.lineLength ∧ c.column + w - c.lineIndent ≤ limits.ribbon

/-- The column up to which the current line is filled in the narrowest layout. -/
def State.committed (s : State) : Int := s.cursor.column + restOfLine s.stack

def State.Within (limits : Limits) (s : State) : Prop :=
  s.cursor.HasRoom limits (restOfLine s.stack)

/-- Whether a task places its document below what stands already by moving right on the same
line. -/
def Task.overlaps (limits : Limits) (c : Cursor) (after : List Task) : Task → Bool
  | .below indent overlap d => overlap && c.column < indent + d.lead
  | .fill indent spaced (d :: ds) startLine =>
    !joins limits c after spaced d ds startLine && c.column < indent + d.lead
  | _ => false

theorem fits_iff_hasRoom {limits : Limits} (hpage : limits.discipline = .page)
    (c : Cursor) (w : Nat) : c.fits limits w ↔ c.HasRoom limits w := by
  simp only [Cursor.fits, hpage, Cursor.HasRoom, decide_eq_true_eq]
  omega

theorem aheadAll_eq_flatSum {spaced : Bool} {ds : List Doc} {w : Nat} (hw : flatSum? ds = some w)
    (follow : Nat) : aheadAll spaced follow ds = w + gap spaced * ds.length + follow := by
  induction ds generalizing w with
  | nil =>
    obtain rfl : 0 = w := by simpa [flatSum?] using hw
    simp [aheadAll]
  | cons d ds ih =>
    obtain ⟨a, b, ha, hb, rfl⟩ := flatSum?_cons_iff.mp hw
    rw [aheadAll, ahead_flat ha, ih hb, List.length_cons, Nat.mul_succ]
    omega

theorem ahead_joined {fit : Fit} {l r : Doc} {spaced : Bool}
    (hflat : fit = .flat → ∃ w, (joined l spaced r).flat? = some w) (follow : Nat) :
    (joined l spaced r).ahead fit follow = l.ahead fit (gap spaced + r.ahead fit follow) := by
  cases fit with
  | flat =>
    obtain ⟨w, hw⟩ := hflat rfl
    obtain ⟨a, b, ha, hb, rfl⟩ := flat?_joined_iff.mp hw
    rw [ahead_flat hw, ahead_flat ha, ahead_flat hb]
    omega
  | broken =>
    simp only [ahead_broken, breaks, first]
    by_cases hl : l.breaks <;> by_cases hr : r.breaks <;> simp [hl, hr] <;> omega

theorem ahead_broken_zero (d : Doc) : d.ahead .broken 0 = d.first := by
  rw [ahead_broken]
  split <;> rfl

section

variable {limits : Limits} {c : Cursor} {after : List Task}

/-- A node leaves the commitment as it was, unless it is a group that goes on one line and fits. -/
theorem renderNode_committed (hpage : limits.discipline = .page) {fit : Fit} {d : Doc}
    (hd : d.Sound) (hflat : fit = .flat → ∃ w, d.flat? = some w) (indent : Int) :
    let o := renderNode limits c after indent fit d
    o.cursor.lineIndent = c.lineIndent ∧
      (o.cursor.column + restOfLine (o.tasks ++ after) = c.column + d.ahead fit (restOfLine after) ∨
        o.cursor.HasRoom limits (restOfLine (o.tasks ++ after))) := by
  cases d with
  | empty =>
    refine ⟨rfl, .inl ?_⟩
    cases fit <;> simp [renderNode, ahead, flat?, breaks, first]
  | text s =>
    refine ⟨write_lineIndent (.leaf s) c, .inl ?_⟩
    have hcol := write_column (.leaf s) c
    cases fit <;> simp_all [renderNode, ahead, flat?, breaks, first, Piece.write,
      Piece.width] <;> omega
  | nested k d => exact ⟨rfl, .inl rfl⟩
  | joined l spaced r =>
    refine ⟨rfl, .inl ?_⟩
    simp only [renderNode, List.cons_append, List.append_assoc]
    rw [restOfLine_render, restOfLine_skip, List.nil_append, restOfLine_align, ahead_joined hflat]
  | stacked u overlap l =>
    refine ⟨rfl, .inl ?_⟩
    cases fit with
    | flat => simpa [flat?] using hflat rfl
    | broken =>
      simp only [renderNode, List.cons_append]
      rw [restOfLine_render, restOfLine_below, ahead_broken_zero]
      simp [ahead_broken, breaks, first]
  | grouped fill spaced members =>
    -- a group that was built has at least two members
    obtain ⟨m, n, ms, rfl⟩ : ∃ m n ms, members = m :: n :: ms := by
      cases hd.solid (by simp [isEmpty]) with
      | grouped hlen _ =>
        rcases members with _ | ⟨m, _ | ⟨n, ms⟩⟩
        · simp at hlen
        · simp at hlen
        · exact ⟨m, n, ms, rfl⟩
    rw [renderNode]
    split
    · next h =>
      refine ⟨rfl, ?_⟩
      obtain ⟨w, hw, hwhy⟩ := flat_choice hflat h
      have hrest : restOfLine (flatTasks spaced (m :: n :: ms) ++ after) =
          w + restOfLine after := by
        obtain ⟨a, b, ha, hb, rfl⟩ := flat?_grouped_iff.mp hw
        rw [restOfLine_flatTasks, ahead_flat ha, aheadAll_eq_flatSum hb]
        omega
      rcases hwhy with rfl | hfits
      · exact .inl (by rw [hrest, ahead_flat hw])
      · exact .inr (by rw [hrest]; exact (fits_iff_hasRoom hpage _ _).mp hfits)
    · next h =>
      cases fit with
      | flat => simp at h
      | broken =>
        cases fill
        · refine ⟨rfl, .inl ?_⟩
          simp [ahead_broken, breaks, first]
        · refine ⟨rfl, .inl ?_⟩
          simp [ahead_broken, breaks, first, followLast]

theorem below_page {indent : Int} {overlap : Bool} {d : Doc}
    (h : (overlap && c.column < indent + d.lead) = false) :
    Chunk.newline ∈ (c.below .page indent overlap d).2 := by
  unfold Cursor.below
  simp [h, Cursor.newline]

/-- A step that neither starts a line nor moves right to stand below leaves the commitment as it
was, or makes one for which the line has room. -/
theorem next_committed (hpage : limits.discipline = .page) {t : Task} (ht : t.Sound)
    (hline : .newline ∉ (step limits c after t).chunks) (hover : ¬ t.overlaps limits c after) :
    (State.next limits c t after).cursor.lineIndent = c.lineIndent ∧
      ((State.next limits c t after).committed = State.committed ⟨c, t :: after⟩ ∨
        (State.next limits c t after).Within limits) := by
  cases t with
  | render indent fit d => exact renderNode_committed hpage ht.1 ht.2 indent
  | align fit d => exact renderNode_committed hpage ht.1 ht.2 _
  | space =>
    refine ⟨rfl, .inl ?_⟩
    simp [State.next, State.committed, step, Cursor.advance]
    omega
  | below indent overlap d =>
    have hline' : Chunk.newline ∈ (c.below .page indent overlap d).2 :=
      below_page (by simpa [Task.overlaps] using hover)
    exact absurd (by simpa [step, hpage] using hline') hline
  | fill indent spaced rest startLine =>
    cases rest with
    | nil => exact ⟨rfl, .inl rfl⟩
    | cons d ds =>
      by_cases hjoin : joins limits c after spaced d ds startLine
      · obtain ⟨w, hw, hfits⟩ := joins_choice hjoin
        have hrest :
            restOfLine
            ((State.next limits c (.fill indent spaced (d :: ds) startLine) after).stack) =
            gap spaced + w + followLast (restOfLine after) ds := by
          simp only [State.next, step, fillNext, hjoin, if_true, List.append_assoc,
            List.cons_append, List.nil_append]
          rw [restOfLine_skip, restOfLine_render, restOfLine_fill, ahead_flat hw, Nat.add_assoc]
        have hcursor :
            (State.next limits c (.fill indent spaced (d :: ds) startLine) after).cursor = c := by
          simp [State.next, step, fillNext, hjoin]
        refine ⟨by rw [hcursor], .inr ?_⟩
        rw [State.Within, hrest, hcursor]
        exact (fits_iff_hasRoom hpage _ _).mp hfits
      · have hline' : Chunk.newline ∈ (c.below .page indent true d).2 :=
          below_page (by simpa [Task.overlaps, hjoin] using hover)
        exact absurd (by simpa [step, fillNext, hjoin, hpage] using hline') hline

end

/-! ### What stands on a line -/

def Chunk.width : Chunk → Nat
  | .text s => s.length
  | .spaces n => n
  | .newline => 0

def chunksWidth (cs : List Chunk) : Nat := (cs.map Chunk.width).sum

/-- What goes on the current line moves the cursor by its width, the owed spaces counted. -/
def OnLine (c : Cursor) (x : Laid) : Prop :=
  .newline ∉ x.2 ∧ x.1.lineIndent = c.lineIndent ∧
    c.column + chunksWidth x.2 + x.1.owed = x.1.column + c.owed

/-- The cursor stands at the start of a new line, all of its column owed. -/
def OnNewLine (x : Laid) : Prop :=
  x.2 = [.newline] ∧ x.1.lineIndent = x.1.column ∧ x.1.owed = x.1.column

theorem onLine_refl (c : Cursor) : OnLine c (c, []) := by
  simp [OnLine, chunksWidth]

theorem onLine_advance (c : Cursor) (n : Nat) : OnLine c (c.advance n, []) := by
  simp [OnLine, chunksWidth, Cursor.advance]
  omega

theorem onLine_write (s : String) (c : Cursor) : OnLine c (c.write s) := by
  unfold Cursor.write
  split_ifs with hs howed
  · exact onLine_refl c
  · simp [OnLine, chunksWidth, Chunk.width, howed]
  · simp [OnLine, chunksWidth, Chunk.width]
    omega

theorem Task.Moves.onLine_or {c : Cursor} {t : Task} {x : Laid} (h : t.Moves .page c x) :
    OnLine c x ∨ OnNewLine x := by
  cases h with
  | stay => exact .inl (onLine_refl c)
  | right n => exact .inl (onLine_advance c n)
  | newline target => exact .inr ⟨rfl, rfl, Int.toNat_of_nonneg (Int.le_max_right ..)⟩
  | @write _ _ s => exact .inl (onLine_write s c)

/-- A step goes on with its line or starts a new one. -/
theorem step_onLine_or {limits : Limits} (hpage : limits.discipline = .page) (c : Cursor)
    (after : List Task) (t : Task) :
    OnLine c ((step limits c after t).cursor, (step limits c after t).chunks) ∨
      OnNewLine ((step limits c after t).cursor, (step limits c after t).chunks) := by
  have hmoves := step_moves limits c after t
  rw [hpage] at hmoves
  exact hmoves.onLine_or

/-- A line of the output, with what was known of it when it began. -/
structure Line where
  /-- Its first column. -/
  indent : Int
  /-- The column up to which it was filled when it began. -/
  committed : Int
  /-- Whether a document was moved right on it to stand below another. -/
  overlapped : Bool
  pieces : List Chunk

def Line.width (line : Line) : Nat := chunksWidth line.pieces

/-- The line that begins in a state. -/
def State.newLine (s : State) : Line := ⟨s.cursor.lineIndent, s.committed, false, []⟩

/-- The lines of a run, the first of them begun already. -/
def linesFrom (limits : Limits) (line : Line) (c : Cursor) (tasks : List Task) : List Line :=
  match tasks with
  | [] => [line]
  | t :: after =>
    let o := step limits c after t
    if .newline ∈ o.chunks then
      line :: linesFrom limits (State.next limits c t after).newLine o.cursor (o.tasks ++ after)
    else
      linesFrom limits
        { line with
          overlapped := line.overlapped || t.overlaps limits c after
          pieces := line.pieces ++ o.chunks }
        o.cursor (o.tasks ++ after)
termination_by stackWeight tasks
decreasing_by
  all_goals
    have := (step_unfolds limits c after t).weight_lt
    simp only [stackWeight_append, stackWeight_cons]
    omega

/-- The lines of a document. -/
def Doc.lines (style : Style) (d : Doc) : List Line :=
  linesFrom style.limits (State.start style d).newLine (State.start style d).cursor
    (State.start style d).stack

/-- How a line stands to the state in which it is being written: what is on it is its width, and if
it was not filled too far when it began it is not now, unless something was moved right on it. -/
structure Line.Tracks (limits : Limits) (line : Line) (s : State) : Prop where
  indent_eq : line.indent = s.cursor.lineIndent
  width_eq : line.width + s.cursor.owed = s.cursor.column
  page : line.overlapped ∨ limits.lineLength < line.committed ∨ s.committed ≤ limits.lineLength
  ribbon : line.overlapped ∨ limits.ribbon < line.committed - line.indent ∨
    s.committed - s.cursor.lineIndent ≤ limits.ribbon

/-- A page whose widths are columns. -/
structure Style.IsPage (style : Style) : Prop where
  page : style.discipline = .page
  lineLength_lt : style.lineLength.toNat < 2 ^ 63
  ribbonWidth_lt : style.ribbonWidth.toNat < 2 ^ 63

theorem Style.IsPage.lineLength_eq {style : Style} (h : style.IsPage) :
    style.limits.lineLength = style.lineLength.toNat := toInt_toInt64 h.lineLength_lt

theorem Style.IsPage.ribbon_eq {style : Style} (h : style.IsPage) :
    style.limits.ribbon = style.ribbonWidth.toNat := toInt_toInt64 h.ribbonWidth_lt

theorem start_owed {style : Style} (hpage : style.discipline = .page) (d : Doc) :
    ((State.start style d).cursor.owed : Int) = (State.start style d).cursor.column := by
  simp only [State.start, Cursor.start, hpage, if_true]
  omega

/-! ### Lines of the renderer -/

/-- The column up to which the current line of a renderer is filled in the narrowest layout. -/
def Renderer.committed (r : Renderer) : Int := r.column.toInt + (Command.restOfLine r.stack).toNat

/-- The committed width keeps to the page and, without the indentation of the line, to the
ribbon. -/
def Renderer.KeepsTo (style : Style) (r : Renderer) : Prop :=
  r.committed ≤ style.lineLength.toNat ∧ r.committed - r.lineIndent.toInt ≤ style.ribbonWidth.toNat

/-- Whether a command places its document below what stands already by moving right on the same
line. -/
def Command.overlaps (r : Renderer) : Command → Bool
  | .below indent overlap d => overlap && r.column < indent + d.sizes.lead
  | .fill indent spaced (d :: ds) startLine =>
    !r.joins spaced d ds startLine && r.column < indent + d.sizes.lead
  | _ => false

theorem Style.IsPage.covers {style : Style} (h : style.IsPage) (n : Nat) : style.Covers n := by
  intro _ width hwidth
  simp only [List.mem_cons, List.not_mem_nil, or_false] at hwidth
  rcases hwidth with rfl | rfl
  · exact .inl h.lineLength_lt
  · exact .inl h.ribbonWidth_lt

namespace Renderer

theorem committed_eq {n : Nat} (hn : n < 2 ^ 63) {r : Renderer} (hr : r.state.Bounded n) :
    r.committed = r.state.committed := by
  have hcolumn : r.column.toInt + stackSpan r.tasks ≤ n := hr.column_le
  have hnonneg : 0 ≤ r.column.toInt :=
    Int.le_trans hr.onPage.lineIndent_nonneg hr.onPage.lineIndent_le
  have hrest := restOfLine_le_stackSpan r.tasks
  have hword : (Command.restOfLine r.stack).toNat = restOfLine r.tasks := by
    rw [Command.restOfLine_eq_ofNat]
    exact toNat_ofNat_of_lt (Nat.lt_of_le_of_lt (m := n) (Nat.le_trans hrest (by omega)) hn)
  rw [committed, hword]
  rfl

theorem overlaps_eq {n : Nat} (hn : n < 2 ^ 63) {limits : Limits} {r : Renderer}
    (hsees : r.Sees limits) {t : Command} (ht : State.Bounded n ⟨r.cursor, t.task :: r.tasks⟩) :
    t.overlaps r = t.task.overlaps limits r.cursor r.tasks := by
  have hreach := ht.reach_le
  have hless : ∀ {indent : Int64} {d : Doc}, indent.toInt.natAbs + d.shift < 2 ^ 63 →
      decide (r.column < indent + d.sizes.lead) =
      decide (r.cursor.column < indent.toInt + d.lead) := by
    intro indent d h
    rw [decide_eq_decide, Int64.lt_iff_toInt_lt, toInt_target h]
    rfl
  cases t with
  | below indent overlap d =>
    simp only [Command.task, stackReach, Task.reach, extent] at hreach
    simp only [Command.overlaps, Command.task, Task.overlaps]
    rw [hless (by omega)]
  | fill indent spaced rest startLine =>
    cases rest with
    | nil => rfl
    | cons d ds =>
      simp only [Command.task, stackReach, Task.reach] at hreach
      have hjoins := joins_eq hn hsees spaced d ds startLine (by omega)
      rw [shifts] at hreach
      simp only [Command.overlaps, Command.task, Task.overlaps]
      rw [hless (by omega), hjoins]
  | _ => rfl

theorem eq_newline_of_mem {r : Renderer} (hheld : r.held = none) {t : Command}
    (h : .newline ∈ (r.step t).1.toList ++ (r.step t).2.held.toList) :
    (r.step t).1 = some .newline := by
  generalize hx : r.step t = x at h ⊢
  cases hx ▸ step_steps t r with
  | stay => simp [push, hheld] at h
  | right n =>
    unfold advance at h
    split at h <;> simp [push, hheld] at h
  | newline target =>
    unfold newline at h ⊢
    cases hdiscipline : r.discipline <;> simp_all [push]
  | write =>
    unfold write at h
    dsimp only at h
    split_ifs at h <;> simp_all

section

variable {style : Style} (hstyle : style.IsPage) {d : Doc} (hextent : d.extent < 2 ^ 63)
include hstyle hextent

/-- A step that neither starts a line nor moves right to stand below commits to no more than there
is room for. -/
theorem KeepsTo.step (hd : d.Built) {out : List Chunk} {r : Renderer} {t : Command}
    {after : List Command} (hreach : (start style d).Reaches out r) (hheld : r.held = none)
    (hstack : r.stack = t :: after) (hnew : ((r.atop after).step t).1 ≠ some .newline)
    (hover : ¬ t.overlaps (r.atop after)) (hkeeps : r.KeepsTo style) :
    ((r.atop after).step t).2.KeepsTo style := by
  have hcovers := hstyle.covers d.extent
  have hbounded := reaches_bounded hextent hreach
  obtain ⟨hon, hstate⟩ := reaches_state hextent hcovers hreach
  have hsees := hon.sees_of_bounded hextent hcovers hbounded after
  have hagrees := top_agrees hextent hheld hstack hbounded hsees
  rw [KeepsTo, committed_eq hextent hbounded] at hkeeps
  rw [KeepsTo, committed_eq hextent (top_bounded hextent hheld hstack hbounded), hagrees.state_eq]
  have hline :
      .newline ∉ (Offside.step style.limits r.cursor (after.map Command.task) t.task).chunks := by
    rw [← hagrees.chunks_eq]
    exact fun h => hnew (eq_newline_of_mem (r := r.atop after) hheld h)
  rw [state_of_stack hstack] at hbounded hstate hkeeps
  rw [overlaps_eq hextent hsees hbounded] at hover
  have hindent : ((r.atop after).step t).2.lineIndent.toInt =
      (Offside.step style.limits r.cursor (after.map Command.task) t.task).cursor.lineIndent :=
    congrArg Cursor.lineIndent hagrees.lays.cursor
  have hsound := reachable_sound hd hstate t.task (by simp)
  obtain ⟨hsame, hcommitted | hroom⟩ := next_committed hstyle.page hsound hline hover
  · have hsame' : ((r.atop after).step t).2.lineIndent.toInt = r.lineIndent.toInt :=
      hindent.trans hsame
    rw [hcommitted, hsame']
    exact hkeeps
  · rw [hindent, ← hstyle.lineLength_eq, ← hstyle.ribbon_eq]
    exact hroom

end

end Renderer

end Offside
