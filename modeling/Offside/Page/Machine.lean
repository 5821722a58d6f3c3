import Offside.Doc.Basic
import Offside.Page.Chunk
import Offside.Page.Style

/-!
# Laying out a document

A stack of tasks is worked off from the top. A group goes on one line when its width, together with
what must follow it on the same line, fits the rest of the page and of the ribbon. Spaces are owed
and written only before the next text, so no line ends in a space that a leaf does not hold. Every
task is replaced by tasks of less weight in total, so the work ends.
-/
namespace Offside

/-- Whether a document has to stay on one line. -/
inductive Fit where
  | flat
  | broken
deriving DecidableEq, Repr

inductive Task where
  | render (indent : Int) (fit : Fit) (doc : Doc)
  /-- The right side of a joined document, which is aligned with the column where it starts. -/
  | align (fit : Fit) (doc : Doc)
  | space
  /-- The lower side of a stacked document, or a member of a broken group. -/
  | below (indent : Int) (overlap : Bool) (doc : Doc)
  /-- The members still to come of a group that fills its lines, the last one before them begun on
  line `startLine`. -/
  | fill (indent : Int) (spaced : Bool) (rest : List Doc) (startLine : Nat)

/-- The limits of the page, in columns. -/
structure Limits where
  discipline : Discipline
  lineLength : Int
  ribbon : Int

/-- The widths of a style as columns: a column number is a signed word. -/
def Style.limits (s : Style) : Limits :=
  { discipline := s.discipline
    lineLength := s.lineLength.toInt64.toInt
    ribbon := s.ribbonWidth.toInt64.toInt }

/-- Where the next text goes. -/
structure Cursor where
  /-- The column of the next text, the owed spaces counted. -/
  column : Int
  /-- The first column of the current line. -/
  lineIndent : Int
  /-- The spaces owed before the next text. -/
  owed : Nat
  line : Nat
deriving DecidableEq, Repr

namespace Cursor

def advance (c : Cursor) (n : Nat) : Cursor :=
  { c with column := c.column + n, owed := c.owed + n }

/-- Goes to column `target` of the next line. On a single line it is only a space away. -/
def newline (discipline : Discipline) (target : Int) (c : Cursor) : Cursor × List Chunk :=
  let target := max target 0
  match discipline with
  | .page => (⟨target, target, target.toNat, c.line + 1⟩, [.newline])
  | .left => (⟨target, target, 0, c.line + 1⟩, [.newline])
  | .oneLine => (⟨target, target, 1, c.line⟩, [])

/-- Goes to where a document starts below what stands already: to the right on the same line if
`overlap` allows it and there is room, else to the next line. -/
def below (discipline : Discipline) (indent : Int) (overlap : Bool) (d : Doc) (c : Cursor) :
    Cursor × List Chunk :=
  let target := indent + d.lead
  if overlap && c.column < target then (c.advance (target - c.column).toNat, [])
  else c.newline discipline target

/-- Writes a text, with the owed spaces before it unless there is nothing to write. -/
def write (s : String) (c : Cursor) : Cursor × List Chunk :=
  if s.isEmpty then (c, [])
  else if c.owed = 0 then ({ c with column := c.column + s.length }, [.text s])
  else ({ c with column := c.column + s.length, owed := 0 }, [.spaces c.owed, .text s])

/-- Whether a text of this width stays within the page and the ribbon. -/
def fits (limits : Limits) (width : Nat) (c : Cursor) : Bool :=
  match limits.discipline with
  | .left => true
  | .oneLine => false
  | .page =>
    width ≤ min (limits.lineLength - c.column) (limits.ribbon - (c.column - c.lineIndent))

end Cursor

/-- The width that the tasks put on the current line in the narrowest layout. -/
def restOfLine : List Task → Nat
  | [] => 0
  | .render _ fit d :: ts | .align fit d :: ts =>
    match fit, d.flat? with
    | .flat, some w => w + restOfLine ts
    | _, _ => if d.breaks then d.first else d.first + restOfLine ts
  | .space :: ts => 1 + restOfLine ts
  | .fill _ _ [] _ :: ts => restOfLine ts
  | .fill _ _ (_ :: _) _ :: _ => 0
  | .below _ _ _ :: _ => 0

/-- The tasks for the members of a group on one line. -/
def flatTasks (spaced : Bool) : List Doc → List Task
  | [] => []
  | [d] => [.render 0 .flat d]
  | d :: ds => .render 0 .flat d :: (if spaced then [.space] else []) ++ flatTasks spaced ds

/-- What a task leaves: the tasks that take its place, the cursor after it and what it writes. -/
structure Outcome where
  tasks : List Task
  cursor : Cursor
  chunks : List Chunk

/-- Lays out one node of a document; `after` holds the tasks that follow. -/
def renderNode (limits : Limits) (c : Cursor) (after : List Task) (indent : Int)
    (fit : Fit) (d : Doc) : Outcome :=
  match d with
  | .empty => ⟨[], c, []⟩
  | .text s => let (c, out) := c.write s; ⟨[], c, out⟩
  | .nested k body => ⟨[.render (indent + k) fit body], c, []⟩
  | .joined l spaced r =>
    ⟨.render indent fit l :: (if spaced then [.space] else []) ++ [.align fit r], c, []⟩
  | .stacked u overlap l => ⟨[.render indent .broken u, .below indent overlap l], c, []⟩
  | .grouped fill spaced members =>
    if fit = .flat || d.flat?.any fun w => c.fits limits (w + restOfLine after) then
      ⟨flatTasks spaced members, c, []⟩
    else match members with
      | [] => ⟨[], c, []⟩
      | m :: ms =>
        if fill then ⟨[.render indent .broken m, .fill indent spaced ms c.line], c, []⟩
        else ⟨.render indent .broken m :: ms.map (.below indent true), c, []⟩

/-- Whether the next member of a group that fills its lines goes after the one before it: if that
one stayed on one line and this one fits. The last member has to leave room for what follows the
group. -/
def joins (limits : Limits) (c : Cursor) (after : List Task) (spaced : Bool) (d : Doc)
    (ds : List Doc) (startLine : Nat) : Bool :=
  let following := if ds.isEmpty then restOfLine after else 0
  c.line = startLine && d.flat?.any fun w => c.fits limits (Doc.gap spaced + w + following)

/-- Places the next member of a group that fills its lines, after the one before it or below. -/
def fillNext (limits : Limits) (c : Cursor) (after : List Task) (indent : Int) (spaced : Bool)
    (rest : List Doc) (startLine : Nat) : Outcome :=
  match rest with
  | [] => ⟨[], c, []⟩
  | d :: ds =>
    if joins limits c after spaced d ds startLine then
      ⟨(if spaced then [.space] else []) ++
        [.render indent .flat d, .fill indent spaced ds c.line], c, []⟩
    else
      let (c, out) := c.below limits.discipline indent true d
      ⟨[.render indent .broken d, .fill indent spaced ds c.line], c, out⟩

def step (limits : Limits) (c : Cursor) (after : List Task) : Task → Outcome
  | .render indent fit d => renderNode limits c after indent fit d
  | .align fit d => renderNode limits c after (c.column - d.lead) fit d
  | .space => ⟨[], c.advance 1, []⟩
  | .below indent overlap d =>
    let (c, out) := c.below limits.discipline indent overlap d
    ⟨[.render indent .broken d], c, out⟩
  | .fill indent spaced rest startLine => fillNext limits c after indent spaced rest startLine

/-- What can take the place of a task, wherever the cursor is. -/
inductive Task.Unfolds : Task → List Task → Prop where
  | empty (i : Int) (fit : Fit) : Unfolds (.render i fit .empty) []
  | text (i : Int) (fit : Fit) (s : String) : Unfolds (.render i fit (.text s)) []
  | nested (i j k : Int) (fit : Fit) (d : Doc) :
      Unfolds (.render i fit (.nested k d)) [.render j fit d]
  | joined (i : Int) (fit : Fit) (l : Doc) (spaced : Bool) (r : Doc) :
      Unfolds (.render i fit (.joined l spaced r))
        (.render i fit l :: (if spaced then [.space] else []) ++ [.align fit r])
  | stacked (i : Int) (fit : Fit) (u : Doc) (overlap : Bool) (l : Doc) :
      Unfolds (.render i fit (.stacked u overlap l)) [.render i .broken u, .below i overlap l]
  | row (i : Int) {fit : Fit} {fill spaced : Bool} {ds : List Doc}
      (h : fit = .flat ∨ (Doc.grouped fill spaced ds).flat?.isSome) :
      Unfolds (.render i fit (.grouped fill spaced ds)) (flatTasks spaced ds)
  | nothing (i : Int) (fit : Fit) (fill spaced : Bool) :
      Unfolds (.render i fit (.grouped fill spaced [])) []
  | filling (i : Int) (fit : Fit) (spaced : Bool) (m : Doc) (ms : List Doc) (line : Nat) :
      Unfolds (.render i fit (.grouped true spaced (m :: ms))) [.render i .broken m,
        .fill i spaced ms line]
  | column (i : Int) (fit : Fit) (spaced : Bool) (m : Doc) (ms : List Doc) :
      Unfolds (.render i fit (.grouped false spaced (m :: ms)))
        (.render i .broken m :: ms.map (.below i true))
  | align {i : Int} {fit : Fit} {d : Doc} {ts : List Task} (h : Unfolds (.render i fit d) ts) :
      Unfolds (.align fit d) ts
  | space : Unfolds .space []
  | under (i : Int) (overlap : Bool) (d : Doc) : Unfolds (.below i overlap d) [.render i .broken d]
  | filled (i : Int) (spaced : Bool) (line : Nat) : Unfolds (.fill i spaced [] line) []
  | member (i : Int) (spaced : Bool) {d : Doc} (ds : List Doc) (line line' : Nat)
      (h : d.flat?.isSome) :
      Unfolds (.fill i spaced (d :: ds) line)
        ((if spaced then [.space] else []) ++ [.render i .flat d, .fill i spaced ds line'])
  | lower (i : Int) (spaced : Bool) (d : Doc) (ds : List Doc) (line line' : Nat) :
      Unfolds (.fill i spaced (d :: ds) line) [.render i .broken d, .fill i spaced ds line']

theorem isSome_of_any {α : Type} {o : Option α} {p : α → Bool} (h : o.any p = true) : o.isSome := by
  cases o with
  | none => simp at h
  | some a => rfl

theorem renderNode_unfolds (limits : Limits) (c : Cursor) (after : List Task) (indent : Int)
    (fit : Fit) (d : Doc) :
    (Task.render indent fit d).Unfolds (renderNode limits c after indent fit d).tasks := by
  cases d with
  | empty => exact .empty ..
  | text s => exact .text ..
  | nested k body => exact .nested ..
  | joined l spaced r => exact .joined ..
  | stacked u overlap l => exact .stacked ..
  | grouped fill spaced members =>
    simp only [renderNode]
    split
    · next h => exact .row _ ((Bool.or_eq_true_iff.mp h).imp of_decide_eq_true isSome_of_any)
    · cases members with
      | nil => exact .nothing ..
      | cons m ms =>
        cases fill with
        | true => exact .filling ..
        | false => exact .column ..

theorem step_unfolds (limits : Limits) (c : Cursor) (after : List Task) (t : Task) :
    t.Unfolds (step limits c after t).tasks := by
  cases t with
  | render indent fit d => exact renderNode_unfolds ..
  | align fit d => exact .align (renderNode_unfolds ..)
  | space => exact .space
  | below indent overlap d => exact .under ..
  | fill indent spaced rest startLine =>
    cases rest with
    | nil => exact .filled ..
    | cons d ds =>
      simp only [step, fillNext]
      split
      · next h => exact .member _ _ _ _ _ (isSome_of_any (Bool.and_eq_true_iff.mp h).2)
      · exact .lower ..

mutual

/-- More than the number of tasks that come of a document. -/
def Doc.weight : Doc → Nat
  | .empty => 1
  | .text _ => 1
  | .nested _ d => d.weight + 1
  | .joined l _ r => l.weight + r.weight + 2
  | .stacked u _ l => u.weight + l.weight + 2
  | .grouped _ _ ds => Doc.weights ds + 2

def Doc.weights : List Doc → Nat
  | [] => 0
  | d :: ds => d.weight + 2 + Doc.weights ds

end

def Task.weight : Task → Nat
  | .render _ _ d => d.weight
  | .align _ d => d.weight
  | .space => 1
  | .below _ _ d => d.weight + 1
  | .fill _ _ rest _ => Doc.weights rest + 1

def stackWeight : List Task → Nat
  | [] => 0
  | t :: ts => t.weight + stackWeight ts

@[simp] theorem stackWeight_nil : stackWeight [] = 0 := rfl

@[simp] theorem stackWeight_cons (t : Task) (ts : List Task) :
    stackWeight (t :: ts) = t.weight + stackWeight ts := rfl

@[simp] theorem stackWeight_append (ts us : List Task) :
    stackWeight (ts ++ us) = stackWeight ts + stackWeight us := by
  induction ts with
  | nil => simp
  | cons t ts ih => simp [ih, Nat.add_assoc]

theorem stackWeight_space (spaced : Bool) : stackWeight (if spaced then [.space] else []) ≤ 1 := by
  cases spaced <;> simp [Task.weight]

theorem flatTasks_weight (spaced : Bool) (ds : List Doc) :
    stackWeight (flatTasks spaced ds) ≤ Doc.weights ds := by
  fun_induction flatTasks spaced ds with
  | case1 => simp [Doc.weights]
  | case2 d => simp [Doc.weights, Task.weight]
  | case3 d ds h ih =>
    have := stackWeight_space spaced
    simp only [stackWeight_cons, stackWeight_append, List.cons_append, Task.weight, Doc.weights]
    omega

theorem below_weight (indent : Int) (ds : List Doc) :
    stackWeight (ds.map (.below indent true)) ≤ Doc.weights ds := by
  induction ds with
  | nil => simp
  | cons d ds ih =>
    simp only [List.map_cons, stackWeight_cons, Task.weight, Doc.weights]
    omega

/-- A task weighs more than all that takes its place. -/
theorem Task.Unfolds.weight_lt {t : Task} {ts : List Task} (h : t.Unfolds ts) :
    stackWeight ts < t.weight := by
  induction h with
  | empty | text | nested | nothing | space | under | filled => simp [Task.weight, Doc.weight]
  | joined _ _ l spaced r =>
    have := stackWeight_space spaced
    simp only [stackWeight_cons, stackWeight_append, stackWeight_nil, List.cons_append,
      Task.weight, Doc.weight]
    omega
  | stacked =>
    simp only [stackWeight_cons, stackWeight_nil, Task.weight, Doc.weight]
    omega
  | @row _ _ _ spaced ds =>
    have := flatTasks_weight spaced ds
    simp only [Task.weight, Doc.weight]
    omega
  | filling =>
    simp only [stackWeight_cons, stackWeight_nil, Task.weight, Doc.weight, Doc.weights]
    omega
  | column i _ _ _ ms =>
    have := below_weight i ms
    simp only [stackWeight_cons, Task.weight, Doc.weight, Doc.weights]
    omega
  | align _ ih => exact ih
  | member _ spaced =>
    have := stackWeight_space spaced
    simp only [stackWeight_cons, stackWeight_append, stackWeight_nil, Task.weight, Doc.weights]
    omega
  | lower =>
    simp only [stackWeight_cons, stackWeight_nil, Task.weight, Doc.weights]
    omega

/-- Works off a stack of tasks, the top first. -/
def run (limits : Limits) (c : Cursor) (tasks : List Task) : List Chunk :=
  match tasks with
  | [] => []
  | t :: after =>
    let o := step limits c after t
    o.chunks ++ run limits o.cursor (o.tasks ++ after)
termination_by stackWeight tasks
decreasing_by
  have := (step_unfolds limits c after t).weight_lt
  simp only [stackWeight_append, stackWeight_cons]
  omega

/-- The cursor before a document: at its first column, which only a page pads. -/
def Cursor.start (discipline : Discipline) (d : Doc) : Cursor :=
  let column := max d.lead 0
  ⟨column, column, if discipline = .page then column.toNat else 0, 0⟩

/-- The document laid out, piece by piece. -/
def Doc.chunks (style : Style) (d : Doc) : List Chunk :=
  run style.limits (Cursor.start style.discipline d) [.render 0 .broken d]

/-- The document laid out, as text. -/
def Doc.render (style : Style) (d : Doc) : String := Chunk.textOf (d.chunks style)

structure State where
  cursor : Cursor
  stack : List Task

/-- The state after the task `t` on top of the stack has made one step. -/
def State.next (limits : Limits) (c : Cursor) (t : Task) (after : List Task) : State :=
  ⟨(step limits c after t).cursor, (step limits c after t).tasks ++ after⟩

/-- A step takes more weight off the stack than it puts on it. -/
theorem next_weight_lt (limits : Limits) (c : Cursor) (t : Task) (after : List Task) :
    stackWeight (State.next limits c t after).stack < stackWeight (t :: after) := by
  have := (step_unfolds limits c after t).weight_lt
  rw [State.next, stackWeight_append, stackWeight_cons]
  omega

/-- The state before a document is laid out. -/
def State.start (style : Style) (d : Doc) : State :=
  ⟨.start style.discipline d, [.render 0 .broken d]⟩

/-- A layout that hands out its pieces one at a time: the piece that is held back, and the state. -/
structure Feed where
  held : Option Chunk
  state : State

namespace Feed

/-- The next piece and what is left: the piece that is held back, or the first one that a step
writes. -/
def next (limits : Limits) : Feed → Option (Chunk × Feed)
  | ⟨some p, s⟩ => some (p, ⟨none, s⟩)
  | ⟨none, ⟨_, []⟩⟩ => none
  | ⟨none, ⟨c, t :: after⟩⟩ =>
    match (step limits c after t).chunks with
    | [] => next limits ⟨none, .next limits c t after⟩
    | p :: more => some (p, ⟨more.head?, .next limits c t after⟩)
termination_by f => stackWeight f.state.stack
decreasing_by exact next_weight_lt limits c t after

end Feed

end Offside
