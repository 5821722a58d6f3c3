import Offside.Proofs.Compositional

/-!
# The states of a run

A state of the machine is a cursor and a stack. One state reaches another through steps that write
pieces on the way. In one step the cursor stays, moves right, starts a line or is moved past a text
that is written. Whatever stands on top of a stack is worked off before the machine comes to what
stands below it.
-/
namespace Offside

/-- One state comes after another, with these pieces written between them. -/
inductive Reaches (limits : Limits) : State → List Chunk → State → Prop where
  | refl (s : State) : Reaches limits s [] s
  | step {c : Cursor} {t : Task} {after : List Task} {out : List Chunk} {s : State}
      (rest : Reaches limits (.next limits c t after) out s) :
      Reaches limits ⟨c, t :: after⟩ ((step limits c after t).chunks ++ out) s

namespace Reaches

variable {limits : Limits} {a b d : State} {out more : List Chunk}

theorem append (hab : Reaches limits a out b) (hbd : Reaches limits b more d) :
    Reaches limits a (out ++ more) d := by
  induction hab with
  | refl => exact hbd
  | step _ ih =>
    rw [List.append_assoc]
    exact .step (ih hbd)

/-- What every step keeps holds of every state that is reached. -/
theorem keeps {P : State → Prop}
    (hstep : ∀ {c : Cursor} {t : Task} {after : List Task}, P ⟨c, t :: after⟩ →
      P (.next limits c t after))
    (ha : P a) (hab : Reaches limits a out b) : P b := by
  induction hab with
  | refl => exact ha
  | step _ ih => exact ih (hstep ha)

/-- What is written between two states stands between their outputs. -/
theorem run_eq (hab : Reaches limits a out b) :
    run limits a.cursor a.stack = out ++ run limits b.cursor b.stack := by
  induction hab with
  | refl => rfl
  | step _ ih =>
    rw [run, List.append_assoc, ← ih]
    rfl

theorem weight_le (hab : Reaches limits a out b) : stackWeight b.stack ≤ stackWeight a.stack := by
  induction hab with
  | refl => exact Nat.le_refl _
  | step _ ih => exact ih.trans (next_weight_lt limits _ _ _).le

/-- A stack does not come back, so what is written until a stack is left is determined. -/
theorem unique (hab : Reaches limits a out b) (had : Reaches limits a more d)
    (hstack : b.stack = d.stack) : out = more := by
  induction hab generalizing more with
  | refl =>
    cases had with
    | refl => rfl
    | step rest =>
      have hle := rest.weight_le
      rw [← hstack] at hle
      exact absurd hle (Nat.not_le.mpr (next_weight_lt limits _ _ _))
  | step rest ih =>
    cases had with
    | refl =>
      have hle := rest.weight_le
      rw [hstack] at hle
      exact absurd hle (Nat.not_le.mpr (next_weight_lt limits _ _ _))
    | step rest' => rw [ih rest' hstack]

end Reaches

/-! ### What a step can do -/

/-- The task on top of the stack is about to lay out a document. -/
inductive Task.Begins (c : Cursor) : Task → Int → Fit → Doc → Prop where
  | render (indent : Int) (fit : Fit) (d : Doc) : Begins c (.render indent fit d) indent fit d
  | align (fit : Fit) (d : Doc) : Begins c (.align fit d) (c.column - d.lead) fit d

/-- What a task does in one step with the cursor, and what it writes. -/
inductive Task.Moves (discipline : Discipline) (c : Cursor) : Task → Laid → Prop where
  | stay (t : Task) : Moves discipline c t (c, [])
  | right (t : Task) (n : Nat) : Moves discipline c t (c.advance n, [])
  | newline (t : Task) (target : Int) : Moves discipline c t (c.newline discipline target)
  | write {t : Task} {indent : Int} {fit : Fit} {s : String} (h : t.Begins c indent fit (.text s)) :
      Moves discipline c t (c.write s)

section

variable (limits : Limits) (c : Cursor) (after : List Task)

theorem renderNode_moves {t : Task} {indent : Int} {fit : Fit} {d : Doc}
    (h : t.Begins c indent fit d) :
    t.Moves limits.discipline c
      ((renderNode limits c after indent fit d).cursor,
        (renderNode limits c after indent fit d).chunks) := by
  cases d with
  | text s => exact .write h
  | grouped fill spaced members =>
    simp only [renderNode]
    split
    · exact .stay t
    · cases members with
      | nil => exact .stay t
      | cons m ms => cases fill <;> exact .stay t
  | _ => exact .stay t

theorem below_moves (t : Task) (discipline : Discipline) (indent : Int) (overlap : Bool) (d : Doc) :
    t.Moves discipline c (c.below discipline indent overlap d) := by
  unfold Cursor.below
  dsimp only
  split
  · exact .right t _
  · exact .newline t _

theorem step_moves (t : Task) :
    t.Moves limits.discipline c ((step limits c after t).cursor,
      (step limits c after t).chunks) := by
  cases t with
  | render indent fit d => exact renderNode_moves limits c after (.render indent fit d)
  | align fit d => exact renderNode_moves limits c after (.align fit d)
  | space => exact .right _ 1
  | below indent overlap d => exact below_moves c _ ..
  | fill indent spaced rest startLine =>
    cases rest with
    | nil => exact .stay _
    | cons d ds =>
      by_cases hjoin : joins limits c after spaced d ds startLine
      · simp only [step, fillNext, hjoin, if_true]
        exact .stay _
      · simp only [step, fillNext, hjoin]
        exact below_moves c _ ..

end

/-! ### What a stack lays out -/

/-- The tasks on top of a stack are worked off as their layout says, whatever stands below them. -/
theorem reaches_layTasks (limits : Limits) (ts after : List Task) (c : Cursor) :
    Reaches limits ⟨c, ts ++ after⟩ (layTasks limits after ts c).2
      ⟨(layTasks limits after ts c).1, after⟩ := by
  induction h : stackWeight ts using Nat.strongRecOn generalizing ts c with
  | ind n ih =>
    cases ts with
    | nil => exact .refl _
    | cons t ts =>
      have hweight : stackWeight ((step limits c (ts ++ after) t).tasks ++ ts) < n := by
        have := (step_unfolds limits c (ts ++ after) t).weight_lt
        rw [← h, stackWeight_append, stackWeight_cons]
        omega
      have hrest :=
        ih _ hweight ((step limits c (ts ++ after) t).tasks ++ ts)
          (step limits c (ts ++ after) t).cursor rfl
      rw [layTasks_append, List.append_assoc] at hrest
      rw [layTasks_cons, lay_step, Outcome.lay, Laid.andThen_assoc]
      exact .step hrest

end Offside
