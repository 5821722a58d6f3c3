import Offside.Proofs.ChunkStream

/-!
# A layout ends, and hands out its pieces one at a time

Some tasks put back the document that they hold, or go on as a task of their own kind, so neither
the height of the stack nor the size of its documents goes down. Their weights do: what takes the
place of a task weighs less than the task. So the stack is empty after a number of steps that the
size of the document bounds. A step writes at most two pieces; hence a layout that is asked for one
piece at a time has never more than one to hold back.
-/
namespace Offside

open Doc

/-! ### The number of steps -/

/-- The state after one more step. With nothing on its stack it stays. -/
def State.advance (limits : Limits) : State → State
  | ⟨c, []⟩ => ⟨c, []⟩
  | ⟨c, t :: after⟩ => .next limits c t after

/-- A state is reached in a number of steps, and each of them took weight off the stack. -/
theorem Reaches.exists_iterate {limits : Limits} {a b : State} {out : List Chunk}
    (h : Reaches limits a out b) :
    ∃ n, (State.advance limits)^[n] a = b ∧ n + stackWeight b.stack ≤ stackWeight a.stack := by
  induction h with
  | refl s => exact ⟨0, rfl, by omega⟩
  | @step c t after _ s _ ih =>
    obtain ⟨n, hn, hweight⟩ := ih
    have hlt := next_weight_lt limits c t after
    exact ⟨n + 1, hn, by dsimp only; omega⟩

mutual

/-- The number of nodes of a document. -/
def Doc.nodes : Doc → Nat
  | .empty => 1
  | .text _ => 1
  | .nested _ d => d.nodes + 1
  | .joined l _ r => l.nodes + r.nodes + 1
  | .stacked u _ l => u.nodes + l.nodes + 1
  | .grouped _ _ ds => Doc.nodesAll ds + 1

def Doc.nodesAll : List Doc → Nat
  | [] => 0
  | d :: ds => d.nodes + Doc.nodesAll ds

end

/-- A node and its place in a group weigh no more than four. -/
theorem weight_le_nodes (d : Doc) : d.weight + 2 ≤ 4 * d.nodes := by
  induction d using Doc.inductOn with
  | empty => decide
  | text s => simp [Doc.weight, Doc.nodes]
  | nested k d ih =>
    rw [Doc.weight, Doc.nodes]
    omega
  | joined l spaced r ihl ihr =>
    rw [Doc.weight, Doc.nodes]
    omega
  | stacked u overlap l ihu ihl =>
    rw [Doc.weight, Doc.nodes]
    omega
  | grouped fill spaced ds ih =>
    have hmembers : Doc.weights ds ≤ 4 * Doc.nodesAll ds := by
      induction ds with
      | nil => exact Nat.le_refl _
      | cons d ds ihds =>
        obtain ⟨hd, hds⟩ := List.forall_mem_cons.mp ih
        have := ihds hds
        rw [Doc.weights, Doc.nodesAll]
        omega
    rw [Doc.weight, Doc.nodes]
    omega

/-! ### The pieces of a step -/

theorem Task.Moves.length_le {discipline : Discipline} {c : Cursor} {t : Task} {x : Laid}
    (h : t.Moves discipline c x) : x.2.length ≤ 2 := by
  cases h with
  | stay => simp
  | right => simp
  | newline => cases discipline <;> simp [Cursor.newline]
  | write =>
    unfold Cursor.write
    split_ifs <;> simp

theorem length_run_le (limits : Limits) (c : Cursor) (ts : List Task) :
    (run limits c ts).length ≤ 2 * stackWeight ts := by
  fun_induction run limits c ts with
  | case1 => simp
  | case2 c t after o ih =>
    have hpieces : o.chunks.length ≤ 2 := (step_moves limits c after t).length_le
    have hweight : stackWeight (o.tasks ++ after) < stackWeight (t :: after) :=
      next_weight_lt limits c t after
    rw [List.length_append]
    omega

/-! ### One piece at a time -/

namespace Feed

/-- These pieces are handed out in turn, and then no more. -/
inductive Yields (limits : Limits) : Feed → List Chunk → Prop where
  | nil {f : Feed} : f.next limits = none → Yields limits f []
  | cons {f g : Feed} {p : Chunk} {ps : List Chunk} :
      f.next limits = some (p, g) → Yields limits g ps → Yields limits f (p :: ps)

section

variable {limits : Limits} {c : Cursor} {t : Task} {after : List Task}

theorem next_of_silent (h : (step limits c after t).chunks = []) :
    next limits ⟨none, ⟨c, t :: after⟩⟩ = next limits ⟨none, .next limits c t after⟩ := by
  rw [next, h]

theorem next_of_writes {p : Chunk} {more : List Chunk}
    (h : (step limits c after t).chunks = p :: more) :
    next limits ⟨none, ⟨c, t :: after⟩⟩ = some (p, ⟨more.head?, .next limits c t after⟩) := by
  rw [next, h]

end

namespace Yields

variable {limits : Limits} {ps : List Chunk}

theorem of_next_eq {f g : Feed} (h : f.next limits = g.next limits) (hg : Yields limits g ps) :
    Yields limits f ps := by
  cases hg with
  | nil hnext => exact .nil (h.trans hnext)
  | cons hnext hrest => exact .cons (h.trans hnext) hrest

theorem hold {s : State} (h : Yields limits ⟨none, s⟩ ps) (held : Option Chunk) :
    Yields limits ⟨held, s⟩ (held.toList ++ ps) := by
  cases held with
  | none => exact h
  | some p => exact .cons (by rw [next]) h

end Yields

/-- What is handed out piece by piece is what a run writes. -/
theorem yields_run (limits : Limits) (c : Cursor) (ts : List Task) :
    Yields limits ⟨none, ⟨c, ts⟩⟩ (run limits c ts) := by
  fun_induction run limits c ts with
  | case1 c => exact .nil (by rw [next])
  | case2 c t after o ih =>
    have hlength : o.chunks.length ≤ 2 := (step_moves limits c after t).length_le
    cases hchunks : o.chunks with
    | nil => exact ih.of_next_eq (next_of_silent hchunks)
    | cons p more =>
      -- a second piece is held back, and there is no third
      have hmore : more.head?.toList = more := by
        rcases more with _ | ⟨q, _ | ⟨r, more⟩⟩
        · rfl
        · rfl
        · simp [hchunks] at hlength
      have hrest := ih.hold more.head?
      rw [hmore] at hrest
      exact .cons (next_of_writes hchunks) hrest

end Feed

/-- In every state of the layout of a document the next step takes weight off the stack. So the
stack is empty after at most four steps for every node of the document. Asked for one piece at a
time, the layout hands out the pieces of the document, which are finitely many, and then no more. -/
theorem layout_ends_piece_by_piece (style : Style) (d : Doc) :
    (∀ out c t after, Reaches style.limits (.start style d) out ⟨c, t :: after⟩ →
      stackWeight (State.next style.limits c t after).stack < stackWeight (t :: after)) ∧
    (∃ n ≤ 4 * d.nodes, ∃ c, (State.advance style.limits)^[n] (.start style d) = ⟨c, []⟩) ∧
    Feed.Yields style.limits ⟨none, .start style d⟩ (d.chunks style) ∧
    (d.chunks style).length ≤ 8 * d.nodes := by
  have hweight : stackWeight (State.start style d).stack = d.weight := by
    simp [State.start, Task.weight]
  have hnodes := weight_le_nodes d
  have hwhole : Reaches style.limits (.start style d) (d.chunks style) ⟨d.lastCursor style, []⟩ :=
    reaches_lastCursor style d rfl
  refine ⟨fun out c t after _ => next_weight_lt style.limits c t after, ?_,
    Feed.yields_run _ _ _, ?_⟩
  · obtain ⟨n, hlast, hn⟩ := hwhole.exists_iterate
    exact ⟨n, by dsimp only at hn; omega, d.lastCursor style, hlast⟩
  · have hlength :=
      length_run_le style.limits (.start style.discipline d) (State.start style d).stack
    calc (d.chunks style).length ≤ 2 * d.weight := by rwa [hweight] at hlength
      _ ≤ 8 * d.nodes := by omega

theorem filled_words_end_piece_by_piece :
    let style : Style := {}
    let rest := [text "be", (text "or").above (text "not")]
    let d := nest 2 (.group true true (text "to" :: rest))
    Reaches style.limits (.start style d) [.spaces 2, .text "to"] ⟨⟨4, 2, 0, 0⟩,
      [.fill 2 true rest 0]⟩ ∧
      stackWeight (State.next style.limits ⟨4, 2, 0, 0⟩ (.fill 2 true rest 0) []).stack <
        stackWeight [.fill 2 true rest 0] ∧
      Feed.Yields style.limits ⟨none, .start style d⟩ [.spaces 2, .text "to", .spaces 1,
        .text "be", .newline, .spaces 2, .text "or", .newline, .spaces 2, .text "not"] := by
  intro style rest d
  obtain ⟨hweight, -, hyields, -⟩ := layout_ends_piece_by_piece style d
  have hfill : Reaches style.limits (.start style d)
      [.spaces 2, .text "to"] ⟨⟨4, 2, 0, 0⟩, [.fill 2 true rest 0]⟩ :=
    .step (.step (.step (.refl _)))
  have hchunks : d.chunks style =
      [.spaces 2, .text "to", .spaces 1, .text "be", .newline, .spaces 2, .text "or",
        .newline, .spaces 2, .text "not"] := by
    rw [chunks_eq_lay]
    decide
  rw [hchunks] at hyields
  exact ⟨hfill, hweight _ _ _ _ hfill, hyields⟩

end Offside
