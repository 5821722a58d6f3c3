import Mathlib
import Offside.Page.Machine

/-!
# The text of a document survives its layout

The texts that a run writes are the leaves of its document from left to right, the empty ones left
out. A step either writes the first leaf of its task or hands all the leaves on to the tasks that
take its place, so nothing is lost, repeated or moved, whatever the page.
-/
namespace Offside

mutual

/-- The texts of a document from left to right. -/
def Doc.leaves : Doc → List String
  | .empty => []
  | .text s => [s]
  | .nested _ d => d.leaves
  | .joined l _ r => l.leaves ++ r.leaves
  | .stacked u _ l => u.leaves ++ l.leaves
  | .grouped _ _ ds => Doc.leavesAll ds

def Doc.leavesAll : List Doc → List String
  | [] => []
  | d :: ds => d.leaves ++ Doc.leavesAll ds

end

/-- The texts that leave a mark on the page. -/
def visible (ss : List String) : List String := ss.filter fun s => !s.isEmpty

@[simp] theorem visible_append (ss ts : List String) :
    visible (ss ++ ts) = visible ss ++ visible ts :=
  List.filter_append ..

@[simp] theorem visible_nil : visible [] = [] := rfl

namespace Chunk

def isText : Chunk → Bool
  | .text _ => true
  | _ => false

/-- The texts among the pieces. -/
def texts : List Chunk → List String
  | [] => []
  | .text s :: cs => s :: texts cs
  | _ :: cs => texts cs

@[simp] theorem texts_append (cs ds : List Chunk) : texts (cs ++ ds) = texts cs ++ texts ds := by
  fun_induction texts cs <;> simp_all [texts]

theorem filter_isText (cs : List Chunk) : cs.filter isText = (texts cs).map .text := by
  fun_induction texts cs <;> simp_all [isText, List.filter_cons]

end Chunk

open Chunk

/-- The texts that a task is still to write. -/
def Task.leaves : Task → List String
  | .render _ _ d | .align _ d | .below _ _ d => d.leaves
  | .space => []
  | .fill _ _ rest _ => Doc.leavesAll rest

def stackLeaves : List Task → List String
  | [] => []
  | t :: ts => t.leaves ++ stackLeaves ts

@[simp] theorem stackLeaves_append (ts us : List Task) :
    stackLeaves (ts ++ us) = stackLeaves ts ++ stackLeaves us := by
  induction ts with
  | nil => rfl
  | cons t ts ih => simp [stackLeaves, ih]

@[simp] theorem stackLeaves_space (spaced : Bool) :
    stackLeaves (if spaced then [.space] else []) = [] := by
  cases spaced <;> rfl

theorem stackLeaves_flatTasks (spaced : Bool) (ds : List Doc) :
    stackLeaves (flatTasks spaced ds) = Doc.leavesAll ds := by
  fun_induction flatTasks spaced ds with
  | case1 => rfl
  | case2 d => simp [stackLeaves, Task.leaves, Doc.leavesAll]
  | case3 d ds h ih => simp [stackLeaves, Task.leaves, Doc.leavesAll, ih]

theorem stackLeaves_belows (indent : Int) (ds : List Doc) :
    stackLeaves (ds.map (.below indent true)) = Doc.leavesAll ds := by
  induction ds with
  | nil => rfl
  | cons d ds ih => simp [stackLeaves, Task.leaves, Doc.leavesAll, ih]

theorem texts_write (s : String) (c : Cursor) : texts (c.write s).2 = visible [s] := by
  unfold Cursor.write visible
  split_ifs with h <;> simp [texts, h]

/-- Moving the cursor writes no text. -/
theorem texts_below (discipline : Discipline) (indent : Int) (overlap : Bool)
    (d : Doc) (c : Cursor) : texts (c.below discipline indent overlap d).2 = [] := by
  unfold Cursor.below Cursor.newline
  dsimp only
  split
  · rfl
  · cases discipline <;> rfl

section

variable (limits : Limits) (c : Cursor) (after : List Task)

theorem texts_renderNode (indent : Int) (fit : Fit) (d : Doc) :
    texts (renderNode limits c after indent fit d).chunks ++
      visible (stackLeaves (renderNode limits c after indent fit d).tasks) = visible d.leaves := by
  cases d with
  | empty => rfl
  | text s => simp [renderNode, texts_write, stackLeaves, Doc.leaves]
  | nested k d => simp [renderNode, texts, stackLeaves, Task.leaves, Doc.leaves]
  | joined l spaced r => simp [renderNode, texts, stackLeaves, Task.leaves, Doc.leaves]
  | stacked u overlap l => simp [renderNode, texts, stackLeaves, Task.leaves, Doc.leaves]
  | grouped fill spaced members =>
    cases members with
    | nil =>
      rw [renderNode]
      split <;> rfl
    | cons m ms =>
      rw [renderNode]
      split
      · simp [texts, stackLeaves_flatTasks, Doc.leaves]
      · cases fill
        · simp [texts, stackLeaves, stackLeaves_belows, Task.leaves, Doc.leaves, Doc.leavesAll]
        · simp [texts, stackLeaves, Task.leaves, Doc.leaves, Doc.leavesAll]

theorem texts_fillNext (indent : Int) (spaced : Bool) (rest : List Doc) (startLine : Nat) :
    texts (fillNext limits c after indent spaced rest startLine).chunks ++
      visible (stackLeaves (fillNext limits c after indent spaced rest startLine).tasks) =
        visible (Doc.leavesAll rest) := by
  cases rest with
  | nil => rfl
  | cons d ds =>
    rw [fillNext]
    split
    · simp [texts, stackLeaves, Task.leaves, Doc.leavesAll]
    · simp [texts_below, stackLeaves, Task.leaves, Doc.leavesAll]

/-- What a step writes and what it leaves to write are together the leaves of its task. -/
theorem texts_step (t : Task) :
    texts (step limits c after t).chunks ++ visible (stackLeaves (step limits c after t).tasks) =
      visible t.leaves := by
  cases t with
  | render indent fit d => exact texts_renderNode ..
  | align fit d => exact texts_renderNode ..
  | space => rfl
  | below indent overlap d => simp [step, texts_below, stackLeaves, Task.leaves]
  | fill indent spaced rest startLine => exact texts_fillNext ..

end

theorem texts_run (limits : Limits) (c : Cursor) (ts : List Task) :
    texts (run limits c ts) = visible (stackLeaves ts) := by
  fun_induction run limits c ts with
  | case1 => rfl
  | case2 c t after o ih =>
    rw [texts_append, ih, stackLeaves_append, visible_append, ← List.append_assoc,
      texts_step, stackLeaves, visible_append]

theorem texts_chunks (style : Style) (d : Doc) : texts (d.chunks style) = visible d.leaves := by
  rw [Doc.chunks, texts_run]
  simp [stackLeaves, Task.leaves]

theorem join_visible (ss : List String) : String.join (visible ss) = String.join ss := by
  induction ss with
  | nil => rfl
  | cons s ss ih =>
    unfold visible at ih ⊢
    by_cases h : s.isEmpty
    · simp_all [String.join_cons]
    · simp_all [String.join_cons]

/-- In every style the texts written join to the leaves of the document, and any two styles write
the same texts in the same order: what differs is only spaces and line breaks. -/
theorem layout_keeps_text (d : Doc) (style other : Style) :
    String.join (texts (d.chunks style)) = String.join d.leaves ∧
      (d.chunks style).filter isText = (d.chunks other).filter isText := by
  constructor
  · rw [texts_chunks, join_visible]
  · rw [filter_isText, filter_isText, texts_chunks, texts_chunks]

end Offside
