import Offside.Proofs.Overlap

/-!
# The pieces of a run and the column of the cursor

Owed spaces are written only by a step that writes a text. So spaces always stand before a text, and
no text is empty. On a page the column of the cursor is the width of what stands on the line and of
what is owed there, hence every text starts at the column for which its place was chosen.
-/
namespace Offside

open Doc

/-! ### Spaces stand before texts -/

/-- Pieces of which no text is empty and all spaces, at least one, stand before a text. -/
inductive Chunk.Stream : List Chunk → Prop where
  | nil : Stream []
  | text {s : String} {cs : List Chunk} : s ≠ "" → Stream cs → Stream (.text s :: cs)
  | padded {n : Nat} {s : String} {cs : List Chunk} :
      1 ≤ n → s ≠ "" → Stream cs → Stream (.spaces n :: .text s :: cs)
  | newline {cs : List Chunk} : Stream cs → Stream (.newline :: cs)

namespace Chunk.Stream

variable {cs ds : List Chunk}

theorem append (hcs : Stream cs) (hds : Stream ds) : Stream (cs ++ ds) := by
  induction hcs with
  | nil => exact hds
  | text hs _ ih => exact .text hs ih
  | padded hn hs _ ih => exact .padded hn hs ih
  | newline _ ih => exact .newline ih

theorem text_ne_empty (hcs : Stream cs) {s : String} (hs : .text s ∈ cs) : s ≠ "" := by
  induction hcs with
  | nil => simp at hs
  | text hne _ ih =>
    rcases List.mem_cons.mp hs with heq | hs
    · cases heq
      exact hne
    · exact ih hs
  | padded _ hne _ ih =>
    simp only [List.mem_cons, reduceCtorEq, false_or] at hs
    rcases hs with heq | hs
    · cases heq
      exact hne
    · exact ih hs
  | newline _ ih => exact ih (by simpa using hs)

end Chunk.Stream

theorem write_stream (s : String) (c : Cursor) : Chunk.Stream (c.write s).2 := by
  by_cases hs : s = ""
  · simpa [Cursor.write, hs] using Chunk.Stream.nil
  · rw [write_chunks hs, padding]
    split
    · exact .text hs .nil
    · exact .padded (by omega) hs .nil

theorem Task.Moves.stream {discipline : Discipline} {c : Cursor} {t : Task} {x : Laid}
    (h : t.Moves discipline c x) : Chunk.Stream x.2 := by
  cases h with
  | stay => exact .nil
  | right => exact .nil
  | newline =>
    cases discipline with
    | oneLine => exact .nil
    | _ => exact .newline .nil
  | write => exact write_stream _ c

theorem Reaches.stream {limits : Limits} {a b : State} {out : List Chunk}
    (h : Reaches limits a out b) : Chunk.Stream out := by
  induction h with
  | refl => exact .nil
  | @step c t after _ _ _ ih => exact (step_moves limits c after t).stream.append ih

/-! ### The pieces of the renderer -/

theorem ofNat_toNat (u : UInt64) : Int64.ofNat u.toNat = u.toInt64 := by
  rw [← UInt64.toInt64_ofNat', UInt64.ofNat_toNat]

namespace Renderer

/-- In one step nothing is written, or a line break, or the text of the command behind the owed
spaces. -/
theorem step_pieces {r : Renderer} (hheld : r.held = none) (t : Command) {ps : List Chunk}
    (hps : (r.step t).1.toList ++ (r.step t).2.held.toList = ps) :
    ps = [] ∨ ps = [.newline] ∨ ∃ indent fit s, (t = .render indent fit (.text s) ∨
      t = .align fit (.text s)) ∧
      s ≠ "" ∧ ps = padding r.owed.toNat ++ [.text s] := by
  subst hps
  generalize hx : r.step t = x
  cases hx ▸ step_steps t r with
  | stay => exact .inl (by simp [push, hheld])
  | right n =>
    unfold advance
    split <;> exact .inl (by simp [push, hheld])
  | newline target =>
    unfold newline
    cases r.discipline with
    | oneLine => exact .inl (by simp [push, hheld])
    | _ => exact .inr (.inl (by simp [push, hheld]))
  | @write indent fit s ht =>
    have howed : 0 < r.owed ↔ ¬ r.owed.toNat = 0 := by
      rw [UInt64.lt_iff_toNat_lt]
      exact Nat.pos_iff_ne_zero
    unfold write
    dsimp only
    split_ifs with hs hpos
    · exact .inl (by simp [hheld])
    · refine .inr (.inr ⟨indent, fit, s, ht, by simpa using hs, ?_⟩)
      rw [padding, if_neg (howed.mp hpos)]
      rfl
    · refine .inr (.inr ⟨indent, fit, s, ht, by simpa using hs, ?_⟩)
      rw [padding, if_pos (by simpa [howed] using hpos)]
      simp [hheld]

theorem step_stream {r : Renderer} (hheld : r.held = none) (t : Command) :
    Chunk.Stream ((r.step t).1.toList ++ (r.step t).2.held.toList) := by
  rcases step_pieces hheld t rfl with h | h | ⟨_, _, s, -, hs, h⟩
  · rw [h]
    exact .nil
  · rw [h]
    exact .newline .nil
  · rw [h, padding]
    split
    · exact .text hs .nil
    · exact .padded (by omega) hs .nil

/-- What has been handed out or is held back is a stream of pieces. -/
theorem Reaches.stream {a r : Renderer} {out : List Chunk} (h : a.Reaches out r)
    (ha : a.held = none) : Chunk.Stream (out ++ r.held.toList) := by
  refine h.keeps (P := fun out r => Chunk.Stream (out ++ r.held.toList)) ?_ ?_
    (by simpa [ha] using .nil)
  · intro out r p hheld hout
    simpa [hheld] using hout
  · intro out r t after hheld hstack hout
    rw [hheld, Option.toList_none, List.append_nil] at hout
    rw [List.append_assoc]
    exact hout.append (step_stream (r := r.atop after) hheld t)

end Renderer

end Offside
