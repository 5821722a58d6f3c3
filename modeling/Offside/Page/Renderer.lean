import Offside.Page.Machine

/-!
# Laying out in words

The renderer is the machine with its numbers in words of 64 bits. Columns and indents are signed,
widths and counts are unsigned, and what does not fit its word wraps around. A document has its
measures in words too, put together from those of its parts. Pieces are handed out one at a time: a
text that has owed spaces before it is held back for the next turn.
-/
namespace Offside

/-- The measures of a document in words. -/
structure Sizes where
  /-- The width on one line, if the document can stand on one. -/
  flat : Option UInt64
  /-- The nesting of the first line. -/
  lead : Int64
  /-- The width of the first line in the narrowest layout. -/
  first : UInt64
  /-- Whether the narrowest layout goes on past the first line. -/
  breaks : Bool
deriving DecidableEq, Repr

namespace Sizes

def gap (spaced : Bool) : UInt64 := if spaced then 1 else 0

def text (width : UInt64) : Sizes := ⟨some width, 0, width, false⟩

def nest (k : Int64) (d : Sizes) : Sizes := { d with lead := d.lead + k }

def beside (l : Sizes) (spaced : Bool) (r : Sizes) : Sizes where
  flat := do return (← l.flat) + gap spaced + (← r.flat)
  lead := l.lead
  first := if l.breaks then l.first else l.first + gap spaced + r.first
  breaks := l.breaks || r.breaks

def above (u : Sizes) : Sizes := { u with flat := none, breaks := true }

/-- The widths of several documents together. -/
def flatSum : List Sizes → Option UInt64
  | [] => some 0
  | d :: ds => do return (← d.flat) + (← flatSum ds)

def group (spaced : Bool) : List Sizes → Sizes
  | [] => ⟨some 0, 0, 0, true⟩
  | m :: ms => ⟨(flatSum (m :: ms)).map (· + gap spaced * .ofNat ms.length), m.lead, m.first, true⟩

/-- The width on the current line of a document and what follows it, in the narrowest layout. -/
def ahead (fit : Fit) (d : Sizes) (follow : UInt64) : UInt64 :=
  match fit, d.flat with
  | .flat, some w => w + follow
  | _, _ => if d.breaks then d.first else d.first + follow

end Sizes

mutual

def Doc.sizes : Doc → Sizes
  | .empty => .text 0
  | .text s => .text (.ofNat s.length)
  | .nested k d => d.sizes.nest (.ofInt k)
  | .joined l spaced r => l.sizes.beside spaced r.sizes
  | .stacked u _ _ => u.sizes.above
  | .grouped _ spaced ds => .group spaced (Doc.sizesAll ds)

def Doc.sizesAll : List Doc → List Sizes
  | [] => []
  | d :: ds => d.sizes :: Doc.sizesAll ds

end

namespace Doc

theorem sizesAll_eq_map (ds : List Doc) : sizesAll ds = ds.map sizes := by
  induction ds with
  | nil => rfl
  | cons d ds ih => rw [sizesAll, ih, List.map_cons]

/-- The words of the measures of a document. -/
def measured (d : Doc) : Sizes := ⟨d.flat?.map .ofNat, .ofInt d.lead, .ofNat d.first, d.breaks⟩

theorem gap_eq_ofNat (spaced : Bool) : Sizes.gap spaced = .ofNat (gap spaced) := by
  cases spaced <;> rfl

theorem flatSum_eq_map {ds : List Doc} (hds : ∀ d ∈ ds, d.sizes = d.measured) :
    Sizes.flatSum (sizesAll ds) = (flatSum? ds).map .ofNat := by
  induction ds with
  | nil => rfl
  | cons d ds ih =>
    obtain ⟨hd, hds⟩ := List.forall_mem_cons.mp hds
    rw [sizesAll, Sizes.flatSum, ih hds, hd, measured, flatSum?]
    cases d.flat? <;> cases flatSum? ds <;> simp [UInt64.ofNat_add]

/-- The sizes of a document are the words of its measures: wrapping around after every sum or only
once in the end comes to the same. -/
theorem sizes_eq_measured (d : Doc) : d.sizes = d.measured := by
  induction d using Doc.inductOn with
  | empty => rfl
  | text s => rfl
  | nested k d ih =>
    rw [sizes, ih, measured, measured, Sizes.nest, lead, Int.add_comm, Int64.ofInt_add]
    rfl
  | joined l spaced r ihl ihr =>
    have hflat : ∀ a b : Option Nat,
        (do return (← a.map UInt64.ofNat) + Sizes.gap spaced + (← b.map UInt64.ofNat)) =
          (do return (← a) + gap spaced + (← b) : Option Nat).map UInt64.ofNat := by
      intro a b
      cases a <;> cases b <;> simp [gap_eq_ofNat, UInt64.ofNat_add]
    rw [sizes, ihl, ihr, measured, measured, measured, Sizes.beside, hflat, flat?, lead, first,
      breaks, gap_eq_ofNat]
    split <;> simp [UInt64.ofNat_add]
  | stacked u overlap l ihu ihl =>
    rw [sizes, ihu]
    rfl
  | grouped fill spaced ds ih =>
    have hsum := flatSum_eq_map ih
    rw [sizes]
    cases ds with
    | nil =>
      cases spaced <;> rfl
    | cons m ms =>
      rw [sizesAll] at hsum ⊢
      rw [Sizes.group, hsum, ih m (by simp), measured, measured, flat?, lead, first, breaks,
        gap_eq_ofNat, sizesAll_eq_map, List.length_map, Option.map_map, Option.map_map]
      congr 1
      refine congrArg (Option.map · _) (funext fun w => ?_)
      simp [UInt64.ofNat_add, UInt64.ofNat_mul]

end Doc

/-- A task with its numbers in words. -/
inductive Command where
  | render (indent : Int64) (fit : Fit) (doc : Doc)
  | align (fit : Fit) (doc : Doc)
  | space
  | below (indent : Int64) (overlap : Bool) (doc : Doc)
  | fill (indent : Int64) (spaced : Bool) (rest : List Doc) (startLine : UInt64)

namespace Command

/-- The width that the commands put on the current line in the narrowest layout. -/
def restOfLine : List Command → UInt64
  | [] => 0
  | .render _ fit d :: ts | .align fit d :: ts => d.sizes.ahead fit (restOfLine ts)
  | .space :: ts => 1 + restOfLine ts
  | .fill _ _ [] _ :: ts => restOfLine ts
  | .fill _ _ (_ :: _) _ :: _ => 0
  | .below _ _ _ :: _ => 0

/-- The commands for the members of a group on one line. -/
def flatRow (spaced : Bool) : List Doc → List Command
  | [] => []
  | [d] => [.render 0 .flat d]
  | d :: ds => .render 0 .flat d :: (if spaced then [.space] else []) ++ flatRow spaced ds

/-- The task that a command is, its numbers taken as they are. -/
def task : Command → Task
  | .render indent fit d => .render indent.toInt fit d
  | .align fit d => .align fit d
  | .space => .space
  | .below indent overlap d => .below indent.toInt overlap d
  | .fill indent spaced rest startLine => .fill indent.toInt spaced rest startLine.toNat

end Command

structure Renderer where
  discipline : Discipline
  lineLength : Int64
  ribbon : Int64
  stack : List Command
  /-- The text that is handed out next. -/
  held : Option Chunk
  /-- The column of the next text, the owed spaces counted. -/
  column : Int64
  /-- The first column of the current line. -/
  lineIndent : Int64
  /-- The spaces owed before the next text. -/
  owed : UInt64
  line : UInt64

namespace Renderer

def start (style : Style) (d : Doc) : Renderer :=
  let column := max d.sizes.lead 0
  { discipline := style.discipline
    lineLength := style.lineLength.toInt64
    ribbon := style.ribbonWidth.toInt64
    stack := [.render 0 .broken d]
    held := none
    column
    lineIndent := column
    owed := if style.discipline = .page then column.toUInt64 else 0
    line := 0 }

def push (ts : List Command) (r : Renderer) : Renderer := { r with stack := ts ++ r.stack }

def write (s : String) (r : Renderer) : Option Chunk × Renderer :=
  let r := { r with column := r.column + .ofNat s.length }
  if s.isEmpty then (none, r)
  else if 0 < r.owed then (some (.spaces r.owed.toNat),
    { r with owed := 0, held := some (.text s) })
  else (some (.text s), r)

def advance (n : Int64) (r : Renderer) : Renderer :=
  if 0 < n then { r with column := r.column + n, owed := r.owed + n.toUInt64 } else r

/-- Goes to column `target` of the next line. On a single line it is only a space away. -/
def newline (target : Int64) (r : Renderer) : Option Chunk × Renderer :=
  let target := max target 0
  match r.discipline with
  | .page =>
    (some .newline,
      { r with
        column := target, lineIndent := target, owed := target.toUInt64, line := r.line + 1 })
  | .left =>
    (some .newline,
      { r with column := target, lineIndent := target, owed := 0, line := r.line + 1 })
  | .oneLine => (none, { r with column := target, lineIndent := target, owed := 1 })

/-- Goes to where a document starts below what stands already. -/
def below (indent : Int64) (overlap : Bool) (d : Doc) (r : Renderer) : Option Chunk × Renderer :=
  let target := indent + d.sizes.lead
  if overlap && r.column < target then (none, r.advance (target - r.column)) else r.newline target

/-- Whether a text of this width stays within the page and the ribbon. -/
def fits (width : UInt64) (r : Renderer) : Bool :=
  match r.discipline with
  | .left => true
  | .oneLine => false
  | .page => width.toInt64 ≤ min (r.lineLength - r.column) (r.ribbon - (r.column - r.lineIndent))

def render (indent : Int64) (fit : Fit) (d : Doc) (r : Renderer) : Option Chunk × Renderer :=
  match d with
  | .empty => (none, r)
  | .text s => r.write s
  | .nested k body => (none, r.push [.render (indent + .ofInt k) fit body])
  | .joined left spaced right =>
    (none, r.push (.render indent fit left :: (if spaced then [.space] else []) ++
      [.align fit right]))
  | .stacked u overlap l => (none, r.push [.render indent .broken u, .below indent overlap l])
  | .grouped fill spaced members =>
    if fit = .flat || d.sizes.flat.any fun w => r.fits (w + Command.restOfLine r.stack) then
      (none, r.push (Command.flatRow spaced members))
    else match members with
      | [] => (none, r)
      | m :: ms =>
        if fill then (none, r.push [.render indent .broken m, .fill indent spaced ms r.line])
        else (none, r.push (.render indent .broken m :: ms.map (.below indent true)))

/-- Whether the next member of a group that fills its lines goes after the one before it. -/
def joins (spaced : Bool) (d : Doc) (ds : List Doc) (startLine : UInt64) (r : Renderer) : Bool :=
  let following := if ds.isEmpty then Command.restOfLine r.stack else 0
  r.line = startLine && d.sizes.flat.any fun w => r.fits (Sizes.gap spaced + w + following)

/-- Places the next member of a group that fills its lines, after the one before it or below. -/
def fillNext (indent : Int64) (spaced : Bool) (rest : List Doc) (startLine : UInt64)
    (r : Renderer) : Option Chunk × Renderer :=
  match rest with
  | [] => (none, r)
  | d :: ds =>
    if r.joins spaced d ds startLine then
      (none, r.push ((if spaced then [.space] else []) ++
        [.render indent .flat d, .fill indent spaced ds r.line]))
    else
      let (out, r) := r.below indent true d
      (out, r.push [.render indent .broken d, .fill indent spaced ds r.line])

/-- Works off one command, which has been taken from the stack. -/
def step : Command → Renderer → Option Chunk × Renderer
  | .render indent fit d, r => r.render indent fit d
  | .align fit d, r => r.render (r.column - d.sizes.lead) fit d
  | .space, r => (none, r.advance 1)
  | .below indent overlap d, r =>
    let (out, r) := r.below indent overlap d
    (out, r.push [.render indent .broken d])
  | .fill indent spaced rest startLine, r => r.fillNext indent spaced rest startLine

/-- The renderer with the commands that are still to come. -/
def atop (after : List Command) (r : Renderer) : Renderer := { r with stack := after }

/-- The tasks that the commands on the stack are. -/
def tasks (r : Renderer) : List Task := r.stack.map Command.task

/-- What the step of a command does: it puts commands on the stack, and the cursor stays, moves
right, starts a line or is moved past a text that is written. -/
inductive Steps (t : Command) (r : Renderer) : Option Chunk × Renderer → Prop where
  | stay (ts : List Command) (h : t.task.Unfolds (ts.map Command.task)) :
      Steps t r (none, r.push ts)
  | right (n : Int64) (ts : List Command) (h : t.task.Unfolds (ts.map Command.task)) :
      Steps t r (none, (r.advance n).push ts)
  | newline (target : Int64) (ts : List Command) (h : t.task.Unfolds (ts.map Command.task)) :
      Steps t r ((r.newline target).1, (r.newline target).2.push ts)
  | write {indent : Int64} {fit : Fit} {s : String}
      (h : t = .render indent fit (.text s) ∨ t = .align fit (.text s)) :
      Steps t r (r.write s)

theorem isSome_of_sizes_any {d : Doc} {p : UInt64 → Bool} (h : d.sizes.flat.any p = true) :
    d.flat?.isSome := by
  have := isSome_of_any h
  rwa [d.sizes_eq_measured, Doc.measured, Option.isSome_map] at this

theorem map_task_flatRow (spaced : Bool) (ds : List Doc) :
    (Command.flatRow spaced ds).map Command.task = flatTasks spaced ds := by
  fun_induction Command.flatRow spaced ds with
  | case1 => rfl
  | case2 d => rfl
  | case3 d ds hne ih =>
    rw [flatTasks.eq_3 _ _ _ hne, List.map_append, ih]
    cases spaced <;> rfl

theorem below_steps {t : Command} (r : Renderer) (indent : Int64) (overlap : Bool) (d : Doc)
    {ts : List Command} (h : t.task.Unfolds (ts.map Command.task)) :
    Steps t r ((r.below indent overlap d).1, (r.below indent overlap d).2.push ts) := by
  unfold below
  dsimp only
  split
  · exact .right _ ts h
  · exact .newline _ ts h

theorem render_steps {t : Command} {indent i : Int64} {fit : Fit} {d : Doc}
    (ht : t = .render i fit d ∨ t = .align fit d)
    (h : ∀ ts, (Task.render indent.toInt fit d).Unfolds ts → t.task.Unfolds ts) (r : Renderer) :
    Steps t r (r.render indent fit d) := by
  cases d with
  | empty => exact .stay [] (h _ (.empty ..))
  | text s => exact .write ht
  | nested k body => exact .stay _ (h _ (.nested ..))
  | joined left spaced right =>
    refine .stay _ (h _ ?_)
    cases spaced <;> exact .joined ..
  | stacked u overlap l => exact .stay _ (h _ (.stacked ..))
  | grouped fill spaced members =>
    simp only [render]
    split
    · next hline =>
      refine .stay _ (h _ ?_)
      rw [map_task_flatRow]
      exact .row _ ((Bool.or_eq_true_iff.mp hline).imp of_decide_eq_true isSome_of_sizes_any)
    · cases members with
      | nil => exact .stay [] (h _ (.nothing ..))
      | cons m ms =>
        cases fill with
        | true => exact .stay _ (h _ (.filling ..))
        | false =>
          refine .stay _ (h _ ?_)
          rw [List.map_cons, List.map_map]
          exact .column ..

theorem step_steps (t : Command) (r : Renderer) : Steps t r (r.step t) := by
  cases t with
  | render indent fit d => exact render_steps (.inl rfl) (fun _ h => h) r
  | align fit d => exact render_steps (i := 0) (.inr rfl) (fun _ h => .align h) r
  | space => exact .right 1 [] .space
  | below indent overlap d => exact below_steps r indent overlap d (.under ..)
  | fill indent spaced rest startLine =>
    cases rest with
    | nil => exact .stay [] (.filled ..)
    | cons d ds =>
      simp only [step, fillNext]
      split
      · next h =>
        have hflat : d.flat?.isSome := isSome_of_sizes_any (Bool.and_eq_true_iff.mp h).2
        refine .stay _ ?_
        cases spaced <;> exact .member _ _ _ _ _ hflat
      · exact below_steps r indent true d (.lower ..)

/-! ### One piece at a time -/

/-- The weight of what is still to be handed out. -/
def load (r : Renderer) : Nat := 2 * stackWeight r.tasks + if r.held.isSome then 1 else 0

@[simp] theorem tasks_push (ts : List Command) (r : Renderer) :
    (r.push ts).tasks = ts.map Command.task ++ r.tasks :=
  List.map_append

@[simp] theorem tasks_advance (n : Int64) (r : Renderer) : (r.advance n).tasks = r.tasks := by
  unfold advance
  split <;> rfl

@[simp] theorem tasks_newline (target : Int64) (r : Renderer) :
    (r.newline target).2.tasks = r.tasks := by
  unfold newline
  dsimp only
  split <;> rfl

@[simp] theorem tasks_below (indent : Int64) (overlap : Bool) (d : Doc) (r : Renderer) :
    (r.below indent overlap d).2.tasks = r.tasks := by
  unfold below
  dsimp only
  split <;> simp

@[simp] theorem tasks_write (s : String) (r : Renderer) : (r.write s).2.tasks = r.tasks := by
  unfold write
  dsimp only
  split
  · rfl
  · split <;> rfl

/-- A step puts the tasks on the stack that the command unfolds into. -/
theorem step_tasks (t : Command) (r : Renderer) :
    ∃ ts, t.task.Unfolds ts ∧ (r.step t).2.tasks = ts ++ r.tasks := by
  generalize hx : r.step t = x
  cases hx ▸ step_steps t r with
  | stay ts h => exact ⟨_, h, by simp⟩
  | right n ts h => exact ⟨_, h, by simp⟩
  | newline target ts h => exact ⟨_, h, by simp⟩
  | write h =>
    refine ⟨[], ?_, by simp⟩
    rcases h with rfl | rfl
    · exact .text ..
    · exact .align (.text 0 _ _)

theorem step_load_lt {t : Command} {after : List Command} {r : Renderer}
    {x : Option Chunk × Renderer} (h : r.stack = t :: after) (hx : (r.atop after).step t = x) :
    x.2.load < r.load := by
  subst hx
  have hlt : stackWeight ((r.atop after).step t).2.tasks < stackWeight r.tasks := by
    obtain ⟨ts, hts, htasks⟩ := step_tasks t (r.atop after)
    have := hts.weight_lt
    rw [htasks, stackWeight_append]
    simp only [tasks, atop, h, List.map_cons, stackWeight_cons]
    omega
  unfold load
  split <;> split <;> omega

/-- The next piece and what is left: the text that is held back, or the first piece that a step
writes. -/
def next (r : Renderer) : Option (Chunk × Renderer) :=
  match r.held with
  | some p => some (p, { r with held := none })
  | none =>
    match _ : r.stack with
    | [] => none
    | t :: after =>
      match _ : (r.atop after).step t with
      | (some p, r') => some (p, r')
      | (none, r') => r'.next
termination_by r.load
decreasing_by
  next hstack hstep => exact step_load_lt hstack hstep

theorem next_load_lt {r r' : Renderer} {p : Chunk} (h : r.next = some (p, r')) :
    r'.load < r.load := by
  fun_induction next r with
  | case1 r q hheld =>
    obtain ⟨-, rfl⟩ := Prod.mk.inj (Option.some.inj h)
    simp [load, tasks, hheld]
  | case2 => cases h
  | case3 r hheld t after hstack q s hstep =>
    obtain ⟨-, rfl⟩ := Prod.mk.inj (Option.some.inj h)
    exact step_load_lt hstack hstep
  | case4 r hheld t after hstack s hstep ih =>
    exact Nat.lt_trans (ih h) (step_load_lt hstack hstep)

/-- All pieces that are handed out. -/
def chunks (r : Renderer) : List Chunk :=
  match _ : r.next with
  | none => []
  | some (p, r') => p :: r'.chunks
termination_by r.load
decreasing_by
  next hnext => exact next_load_lt hnext

/-- The text that is handed out. -/
def text (r : Renderer) : String := Chunk.textOf r.chunks

end Renderer

end Offside
