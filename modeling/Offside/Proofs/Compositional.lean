import Mathlib
import Offside.Page.Machine

/-!
# What a document lays out by itself

The machine works off a stack, and of what is still on the stack a document only sees the width that
must follow it on its line. So the layout of a document is a function of the cursor and that width,
defined here by recursion on the document. A run of the machine lays out the tasks of its stack one
after the other.
-/
namespace Offside

open Doc

/-- The cursor after something has been laid out, and what was written. -/
abbrev Laid := Cursor × List Chunk

namespace Laid

def andThen (x : Laid) (f : Cursor → Laid) : Laid := ((f x.1).1, x.2 ++ (f x.1).2)

@[simp] theorem andThen_fst (x : Laid) (f : Cursor → Laid) : (x.andThen f).1 = (f x.1).1 := rfl

@[simp] theorem andThen_snd (x : Laid) (f : Cursor → Laid) :
    (x.andThen f).2 = x.2 ++ (f x.1).2 := rfl

theorem andThen_assoc (x : Laid) (f g : Cursor → Laid) :
    (x.andThen f).andThen g = x.andThen fun c => (f c).andThen g := by
  simp [andThen]

theorem andThen_congr {x : Laid} {f g : Cursor → Laid} (h : f x.1 = g x.1) :
    x.andThen f = x.andThen g := by
  rw [andThen, andThen, h]

@[simp] theorem silent_andThen (c : Cursor) (f : Cursor → Laid) : andThen (c, []) f = f c := rfl

@[simp] theorem andThen_silent (x : Laid) : x.andThen (fun c => (c, [])) = x := by
  simp [andThen]

end Laid

/-- The space between two neighbours, owed. -/
def Cursor.skip (spaced : Bool) (c : Cursor) : Cursor := if spaced then c.advance 1 else c

/-- The width on the current line of a document and what follows it, in the narrowest layout. -/
def Doc.ahead (fit : Fit) (d : Doc) (follow : Nat) : Nat :=
  match fit, d.flat? with
  | .flat, some w => w + follow
  | _, _ => if d.breaks then d.first else d.first + follow

theorem Doc.ahead_flat {d : Doc} {w : Nat} (hw : d.flat? = some w) (follow : Nat) :
    d.ahead .flat follow = w + follow := by
  unfold ahead
  rw [hw]

theorem Doc.ahead_broken (d : Doc) (follow : Nat) :
    d.ahead .broken follow = if d.breaks then d.first else d.first + follow := rfl

/-- The width of further members of a group on one line and of what follows them. -/
def aheadAll (spaced : Bool) (follow : Nat) : List Doc → Nat
  | [] => follow
  | d :: ds => gap spaced + d.ahead .flat (aheadAll spaced follow ds)

/-- What follows a member on its line if the next one, should there be one, starts a line. -/
def followLast (follow : Nat) (ds : List Doc) : Nat := if ds.isEmpty then follow else 0

/-- Whether the next member of a group that fills its lines goes after the one before it. -/
def joinsAt (limits : Limits) (follow : Nat) (spaced : Bool) (startLine : Nat) (d : Doc)
    (ds : List Doc) (c : Cursor) : Bool :=
  c.line = startLine && d.flat?.any fun w => c.fits limits (gap spaced + w + followLast follow ds)

mutual

/-- The layout of a document before text of width `follow` on the same line. -/
def Doc.lay (limits : Limits) (follow : Nat) (indent : Int) (fit : Fit) : Doc → Cursor → Laid
  | .empty, c => (c, [])
  | .text s, c => c.write s
  | .nested k d, c => d.lay limits follow (indent + k) fit c
  | .joined l spaced r, c =>
    (l.lay limits (gap spaced + r.ahead fit follow) indent fit c).andThen fun c =>
      let c := c.skip spaced
      r.lay limits follow (c.column - r.lead) fit c
  | .stacked u overlap l, c =>
    (u.lay limits 0 indent .broken c).andThen fun c =>
      Laid.andThen (c.below limits.discipline indent overlap l) (l.lay limits follow indent .broken)
  | .grouped _ _ [], c => (c, [])
  | .grouped fill spaced (m :: ms), c =>
    if fit = .flat || (grouped fill spaced (m :: ms)).flat?.any fun w =>
      c.fits limits (w + follow) then
      (m.lay limits (aheadAll spaced follow ms) 0 .flat c).andThen (layFlat limits follow spaced ms)
    else
      (m.lay limits (followLast follow ms) indent .broken c).andThen fun c' =>
        if fill then layFill limits follow indent spaced c.line ms c' else
          layBelow limits follow indent ms c'

/-- Further members on one line. -/
def layFlat (limits : Limits) (follow : Nat) (spaced : Bool) : List Doc → Cursor → Laid
  | [], c => (c, [])
  | d :: ds, c =>
    (d.lay limits (aheadAll spaced follow ds) 0 .flat (c.skip spaced)).andThen
      (layFlat limits follow spaced ds)

/-- Further members, each below the one before it. -/
def layBelow (limits : Limits) (follow : Nat) (indent : Int) : List Doc → Cursor → Laid
  | [], c => (c, [])
  | d :: ds, c =>
    Laid.andThen (c.below limits.discipline indent true d) fun c =>
      (d.lay limits (followLast follow ds) indent .broken c).andThen
        (layBelow limits follow indent ds)

/-- Further members, as many on a line as fit. -/
def layFill (limits : Limits) (follow : Nat) (indent : Int) (spaced : Bool) (startLine : Nat) :
    List Doc → Cursor → Laid
  | [], c => (c, [])
  | d :: ds, c =>
    if joinsAt limits follow spaced startLine d ds c then
      (d.lay limits (followLast follow ds) indent .flat (c.skip spaced)).andThen
        (layFill limits follow indent spaced c.line ds)
    else
      Laid.andThen (c.below limits.discipline indent true d) fun c =>
        (d.lay limits (followLast follow ds) indent .broken c).andThen
          (layFill limits follow indent spaced c.line ds)

end

/-- The layout of a task before text of width `follow` on the same line. -/
def Task.lay (limits : Limits) (follow : Nat) : Task → Cursor → Laid
  | .render indent fit d, c => d.lay limits follow indent fit c
  | .align fit d, c => d.lay limits follow (c.column - d.lead) fit c
  | .space, c => (c.advance 1, [])
  | .below indent overlap d, c =>
    Laid.andThen (c.below limits.discipline indent overlap d) (d.lay limits follow indent .broken)
  | .fill indent spaced rest startLine, c => layFill limits follow indent spaced startLine rest c

/-- The layout of tasks one after the other, with the tasks `after` still to follow. -/
def layTasks (limits : Limits) (after : List Task) : List Task → Cursor → Laid
  | [], c => (c, [])
  | t :: ts, c => (t.lay limits (restOfLine (ts ++ after)) c).andThen (layTasks limits after ts)

/-- What a task left, with the tasks that took its place laid out. -/
def Outcome.lay (limits : Limits) (after : List Task) (o : Outcome) : Laid :=
  Laid.andThen (o.cursor, o.chunks) (layTasks limits after o.tasks)

section

variable (limits : Limits) (after : List Task)

@[simp] theorem layTasks_nil (c : Cursor) : layTasks limits after [] c = (c, []) := rfl

@[simp] theorem layTasks_cons (t : Task) (ts : List Task) (c : Cursor) :
    layTasks limits after (t :: ts) c =
      (t.lay limits (restOfLine (ts ++ after)) c).andThen (layTasks limits after ts) := rfl

theorem layTasks_append (ts us : List Task) (c : Cursor) :
    layTasks limits after (ts ++ us) c =
      (layTasks limits (us ++ after) ts c).andThen (layTasks limits after us) := by
  induction ts generalizing c with
  | nil => rfl
  | cons t ts ih =>
    rw [List.cons_append, layTasks_cons, layTasks_cons, Laid.andThen_assoc, List.append_assoc]
    exact Laid.andThen_congr (ih _)

@[simp] theorem restOfLine_render (indent : Int) (fit : Fit) (d : Doc) (ts : List Task) :
    restOfLine (.render indent fit d :: ts) = d.ahead fit (restOfLine ts) := rfl

@[simp] theorem restOfLine_align (fit : Fit) (d : Doc) (ts : List Task) :
    restOfLine (.align fit d :: ts) = d.ahead fit (restOfLine ts) := rfl

@[simp] theorem restOfLine_below (indent : Int) (overlap : Bool) (d : Doc) (ts : List Task) :
    restOfLine (.below indent overlap d :: ts) = 0 := rfl

@[simp] theorem restOfLine_fill (indent : Int) (spaced : Bool) (rest : List Doc) (startLine : Nat)
    (ts : List Task) :
    restOfLine (.fill indent spaced rest startLine :: ts) = followLast (restOfLine ts) rest := by
  cases rest <;> rfl

@[simp] theorem restOfLine_space (ts : List Task) :
    restOfLine (.space :: ts) = 1 + restOfLine ts := rfl

theorem restOfLine_skip (spaced : Bool) (ts : List Task) :
    restOfLine ((if spaced then [.space] else []) ++ ts) = gap spaced + restOfLine ts := by
  cases spaced <;> simp [gap]

theorem layTasks_skip (spaced : Bool) (c : Cursor) :
    layTasks limits after (if spaced then [.space] else []) c = (c.skip spaced, []) := by
  cases spaced <;> rfl

theorem restOfLine_flatTasks (spaced : Bool) (d : Doc) (ds : List Doc) :
    restOfLine (flatTasks spaced (d :: ds) ++ after) =
      d.ahead .flat (aheadAll spaced (restOfLine after) ds) := by
  induction ds generalizing d with
  | nil => rfl
  | cons e ds ih =>
    rw [flatTasks, List.append_assoc, List.cons_append, restOfLine_render, restOfLine_skip,
      ih, aheadAll]
    simp

theorem layTasks_flatTasks (spaced : Bool) (d : Doc) (ds : List Doc) (c : Cursor) :
    layTasks limits after (flatTasks spaced (d :: ds)) c =
      (d.lay limits (aheadAll spaced (restOfLine after) ds) 0 .flat c).andThen
        (layFlat limits (restOfLine after) spaced ds) := by
  induction ds generalizing d c with
  | nil => rfl
  | cons e ds ih =>
    rw [flatTasks, List.cons_append, layTasks_cons, List.append_assoc, restOfLine_skip,
      restOfLine_flatTasks]
    · rw [aheadAll, Task.lay]
      apply Laid.andThen_congr
      rw [layTasks_append, layTasks_skip, Laid.silent_andThen, ih, layFlat]
    · simp

theorem restOfLine_belows (indent : Int) (ds : List Doc) :
    restOfLine (ds.map (.below indent true) ++ after) = followLast (restOfLine after) ds := by
  cases ds <;> rfl

theorem layTasks_belows (indent : Int) (ds : List Doc) (c : Cursor) :
    layTasks limits after (ds.map (.below indent true)) c =
      layBelow limits (restOfLine after) indent ds c := by
  induction ds generalizing c with
  | nil => rfl
  | cons d ds ih =>
    rw [List.map_cons, layTasks_cons, restOfLine_belows, Task.lay, layBelow, Laid.andThen_assoc]
    exact Laid.andThen_congr (Laid.andThen_congr (ih _))

theorem joins_eq_joinsAt (spaced : Bool) (startLine : Nat) (d : Doc) (ds : List Doc) (c : Cursor) :
    joins limits c after spaced d ds startLine =
      joinsAt limits (restOfLine after) spaced startLine d ds c := rfl

theorem lay_silent (ts : List Task) (c : Cursor) :
    Outcome.lay limits after ⟨ts, c, []⟩ = layTasks limits after ts c := rfl

/-- One node: the layout of a document is the layout of the tasks that take its place. -/
theorem lay_renderNode (indent : Int) (fit : Fit) (d : Doc) (c : Cursor) :
    d.lay limits (restOfLine after) indent fit c =
      (renderNode limits c after indent fit d).lay limits after := by
  cases d with
  | empty => rw [Doc.lay]; rfl
  | text s =>
    rw [Doc.lay]
    exact (Laid.andThen_silent _).symm
  | nested k d =>
    rw [Doc.lay]
    exact (Laid.andThen_silent _).symm
  | joined l spaced r =>
    rw [Doc.lay, renderNode, lay_silent, List.cons_append, layTasks_cons, List.append_assoc,
      restOfLine_skip]
    apply Laid.andThen_congr
    rw [layTasks_append, layTasks_skip]
    exact (Laid.andThen_silent _).symm
  | stacked u overlap l =>
    rw [Doc.lay, renderNode, lay_silent, layTasks_cons]
    exact Laid.andThen_congr (Laid.andThen_silent _).symm
  | grouped fill spaced members =>
    cases members with
    | nil =>
      rw [Doc.lay, renderNode]
      split <;> rfl
    | cons m ms =>
      rw [Doc.lay, renderNode]
      split
      · rw [lay_silent, layTasks_flatTasks]
      · cases fill
        · rw [if_neg (by simp), lay_silent, layTasks_cons, restOfLine_belows]
          exact Laid.andThen_congr (layTasks_belows ..).symm
        · rw [if_pos rfl, lay_silent, layTasks_cons, List.singleton_append, restOfLine_fill]
          exact Laid.andThen_congr (Laid.andThen_silent _).symm

theorem lay_fillNext (indent : Int) (spaced : Bool) (rest : List Doc)
    (startLine : Nat) (c : Cursor) :
    layFill limits (restOfLine after) indent spaced startLine rest c =
      (fillNext limits c after indent spaced rest startLine).lay limits after := by
  cases rest with
  | nil => rw [layFill]; rfl
  | cons d ds =>
    rw [layFill, fillNext, joins_eq_joinsAt]
    split
    · rw [lay_silent, layTasks_append, layTasks_skip, Laid.silent_andThen, layTasks_cons,
        List.singleton_append, restOfLine_fill]
      exact Laid.andThen_congr (Laid.andThen_silent _).symm
    · rw [Outcome.lay]
      apply Laid.andThen_congr
      rw [layTasks_cons, List.singleton_append, restOfLine_fill]
      exact Laid.andThen_congr (Laid.andThen_silent _).symm

/-- One step: the layout of a task is the layout of the tasks that take its place. -/
theorem lay_step (t : Task) (c : Cursor) :
    t.lay limits (restOfLine after) c = (step limits c after t).lay limits after := by
  cases t with
  | render indent fit d => exact lay_renderNode ..
  | align fit d => exact lay_renderNode ..
  | space => rfl
  | below indent overlap d =>
    rw [Task.lay, step, Outcome.lay]
    exact Laid.andThen_congr (Laid.andThen_silent _).symm
  | fill indent spaced rest startLine => exact lay_fillNext ..

end

/-- A whole run lays out the tasks of its stack one after the other. -/
theorem run_eq_layTasks (limits : Limits) (c : Cursor) (ts : List Task) :
    run limits c ts = (layTasks limits [] ts c).2 := by
  fun_induction run limits c ts with
  | case1 => rfl
  | case2 c t after o ih =>
    rw [layTasks_cons, List.append_nil, lay_step, ih, layTasks_append]
    simp [Outcome.lay, o]

theorem chunks_eq_lay (style : Style) (d : Doc) :
    d.chunks style = (d.lay style.limits 0 0 .broken (.start style.discipline d)).2 := by
  rw [Doc.chunks, run_eq_layTasks, layTasks_cons, List.append_nil]
  simp [Task.lay, restOfLine]

end Offside
