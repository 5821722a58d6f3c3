import Offside.Proofs.Faults

/-!
# Faults in a session

A session keeps the first fault of the trees that it has handled until it is asked to print one.
Then it reports that fault and has none left. The slot with the fault is handed from node to node
while a document is built, and never changes it, so the documents of a session are those of a fresh
one.
-/
namespace Offside.Session

open Syntax

/-- What a session is asked for: the document of a tree, or a report with the document if there is
no fault. -/
inductive Request where
  | pretty (level : Nat) (tree : Node)
  | print (level : Nat) (tree : Node)

namespace Request

def level : Request → Nat
  | .pretty level _ | .print level _ => level

def tree : Request → Node
  | .pretty _ tree | .print _ tree => tree

def isPrint : Request → Bool
  | .pretty _ _ => false
  | .print _ _ => true

end Request

def answer (s : Session) : Request → Session × Except Fault Doc
  | .pretty level tree => ((s.pretty level tree).1, .ok (s.pretty level tree).2)
  | .print level tree => s.print level tree

/-- The session after some requests, and its answers to them. -/
def run (s : Session) : List Request → Session × List (Except Fault Doc)
  | [] => (s, [])
  | r :: rs => (((s.answer r).1.run rs).1, (s.answer r).2 :: ((s.answer r).1.run rs).2)

/-- The trees that were handled since the last report. -/
def unreported (rs : List Request) : List Node :=
  (rs.rtakeWhile fun r => !r.isPrint).map Request.tree

/-- A session in which these trees wait for a report. -/
def waiting (m : Mode) (ts : List Node) : Session :=
  { mode := m, fault := ts.findSome? Node.firstFault? }

theorem run_append (s : Session) (rs qs : List Request) :
    s.run (rs ++ qs) = (((s.run rs).1.run qs).1, (s.run rs).2 ++ ((s.run rs).1.run qs).2) := by
  induction rs generalizing s with
  | nil => rfl
  | cons r rs ih => simp only [List.cons_append, run, ih]

theorem length_run (s : Session) (rs : List Request) : (s.run rs).2.length = rs.length := by
  induction rs generalizing s with
  | nil => rfl
  | cons r rs ih => simp only [run, List.length_cons, ih]

@[simp] theorem unreported_pretty (rs : List Request) (level : Nat) (t : Node) :
    unreported (rs ++ [.pretty level t]) = unreported rs ++ [t] := by
  simp [unreported, Request.isPrint, Request.tree]

@[simp] theorem unreported_print (rs : List Request) (level : Nat) (t : Node) :
    unreported (rs ++ [.print level t]) = [] := by
  simp [unreported, Request.isPrint]

/-- Whatever fault is in the slot, a tree has the document that it has where there is none, and its
own first fault is kept only if the slot was empty. -/
theorem run_pretty (m : Mode) (level : Nat) (t : Node) (slot : Option Fault) :
    (t.pretty m level).run slot = (((t.pretty m level).run none).1, slot.or t.firstFault?) := by
  rw [Checked.run_slot, t.notesFirst m level]
  rfl

/-- One step: the document is that of a fresh session, and the tree waits with the others. -/
theorem pretty_waiting (m : Mode) (ts : List Node) (level : Nat) (t : Node) :
    (waiting m ts).pretty level t = (waiting m (ts ++ [t]), ((t.pretty m level).run none).1) := by
  rw [pretty, run_pretty]
  simp [waiting, List.findSome?_append]

theorem print_waiting (m : Mode) (ts : List Node) (level : Nat) (t : Node) :
    (waiting m ts).print level t = (waiting m [], match (ts ++ [t]).findSome? Node.firstFault? with
      | some f => .error f
      | none => .ok ((t.pretty m level).run none).1) := by
  rw [print, pretty_waiting]
  rfl

/-- A whole run: the trees handled since the last report wait for the next one. -/
theorem run_fst (m : Mode) (rs : List Request) :
    (run { mode := m } rs).1 = waiting m (unreported rs) := by
  induction rs using List.reverseRecOn with
  | nil => rfl
  | append_singleton rs r ih =>
    rw [run_append, ih]
    cases r with
    | pretty level t => simp [run, answer, pretty_waiting]
    | print level t => simp [run, answer, print_waiting]

/-- The answer to a request only depends on the trees that wait when it comes. -/
theorem getElem?_run (m : Mode) (before : List Request) (r : Request) (after : List Request) :
    (run { mode := m } (before ++ r :: after)).2[before.length]? =
      some ((waiting m (unreported before)).answer r).2 := by
  have hlength := length_run { mode := m } before
  rw [run_append, List.getElem?_append_right (by omega), hlength, Nat.sub_self, run_fst]
  rfl

/-- A tree among several is not well-formed exactly if one of them has a fault. -/
theorem exists_findSome?_iff {ts : List Node} :
    (∃ f, ts.findSome? Node.firstFault? = some f) ↔ ∃ t ∈ ts, ¬ t.WellFormed := by
  rw [← Option.isSome_iff_exists, List.findSome?_isSome_iff]
  simp only [← Node.firstFault?_eq_none_iff, Option.isSome_iff_ne_none, ne_eq]

/-- Whatever a session was asked for before, the document that it answers is the one that the tree
has with an empty slot. A report fails exactly if one of the trees that wait for it is malformed,
its own tree included. Then it names the first fault of them in order, and after a report no fault
is left. -/
theorem session_reports_first_fault_once (m : Mode) (before : List Request) (r : Request)
    (after : List Request) :
    ∃ a, (run { mode := m } (before ++ r :: after)).2[before.length]? = some a ∧
      (∀ d, a = .ok d → d = ((r.tree.pretty m r.level).run none).1) ∧
      (r.isPrint = false → ∃ d, a = .ok d) ∧
      (r.isPrint = true →
        ((∃ f, a = .error f) ↔ ∃ t ∈ unreported before ++ [r.tree], ¬ t.WellFormed) ∧
        (∀ f, a = .error f ↔ (unreported before ++ [r.tree]).findSome? Node.firstFault? = some f) ∧
        (run { mode := m } (before ++ [r])).1.fault = none) := by
  refine ⟨_, getElem?_run m before r after, ?_⟩
  rw [run_fst]
  cases r with
  | pretty level t =>
    rw [answer, pretty_waiting]
    exact ⟨fun d hd => (Except.ok.inj hd).symm, fun _ => ⟨_, rfl⟩, by simp [Request.isPrint]⟩
  | print level t =>
    rw [answer, print_waiting, unreported_print, ← exists_findSome?_iff]
    dsimp only [Request.tree, Request.level]
    cases (unreported before ++ [t]).findSome? Node.firstFault? with
    | none => simp [Request.isPrint, waiting, eq_comm]
    | some f => simp [Request.isPrint, waiting]

theorem report_names_earlier_fault :
    let m : Mode := {}
    let before : List Request := [.pretty 0 (.expr (.doBlock [])), .pretty 4 (.expr .wildcard)]
    let report : Request := .print 0 (.expr (.tuple []))
    report.isPrint = true ∧
      (run { mode := m } (before ++ report :: [.print 0 (.expr .wildcard)])).2[2]? =
      some (.error .emptyDo) ∧
      (run { mode := m } (before ++ [report])).1.fault = none := by
  intro m before report
  obtain ⟨a, hanswer, -, -, hreport⟩ :=
    session_reports_first_fault_once m before report [.print 0 (.expr .wildcard)]
  obtain ⟨-, hfault, hnone⟩ := hreport rfl
  have hfirst : (unreported before ++ [report.tree]).findSome? Node.firstFault? =
      some .emptyDo := by
    simp [before, report, unreported, Request.isPrint, Request.tree, List.rtakeWhile,
      Node.firstFault?_eq]
  rw [(hfault _).mpr hfirst] at hanswer
  exact ⟨rfl, hanswer, hnone⟩

end Offside.Session
