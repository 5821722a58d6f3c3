import Offside.Doc.Basic
import Offside.Number.Int128

/-!
# Trees that stand for no program

A tree can lack a part that its printed form needs. Printing notes the first such fault, goes on
with nothing in place of the faulty node, and gives its result together with the fault.
-/
namespace Offside

open Offside.Number

inductive TupleSort where
  | expression
  | pattern
  | type
deriving DecidableEq, Repr

inductive Fault where
  | emptyFunBind
  | emptyCase
  | emptyDo
  | emptyGuardedRhss
  | emptyGuardedAlts
  | lambdaWithoutPatterns
  | shortTuple (sort : TupleSort) (arity : Nat)
  | emptyTypeSignature
  | emptyFixityDecl
  | emptyComprehension
deriving DecidableEq, Repr

def TupleSort.text : TupleSort → String
  | .expression => "expression"
  | .pattern => "pattern"
  | .type => "type"

namespace Fault

def reason : Fault → String
  | .emptyFunBind => "function binding has no clauses"
  | .emptyCase => "case expression has no alternatives"
  | .emptyDo => "do block has no statements"
  | .emptyGuardedRhss => "guarded right-hand side has no guards"
  | .emptyGuardedAlts => "guarded case alternative has no guards"
  | .lambdaWithoutPatterns => "lambda has no patterns"
  | .shortTuple sort arity =>
    sort.text ++ " tuple has " ++ decimalText arity ++ " component(s), expected at least 2"
  | .emptyTypeSignature => "type signature declares no names"
  | .emptyFixityDecl => "fixity declaration lists no operators"
  | .emptyComprehension => "list comprehension has no qualifiers"

def message (f : Fault) : String := "malformed syntax tree: " ++ f.reason

end Fault

/-- A result that is built with a slot at hand in which the first fault is kept. A fault that is in
the slot already stays there, and the result does not depend on the slot. -/
structure Checked (α : Type) where
  /-- The result and the slot after it. -/
  run : Option Fault → α × Option Fault
  run_eq : ∀ slot, run slot = ((run none).1, slot.or (run none).2)

namespace Checked

variable {α β : Type}

def value (x : Checked α) : α := (x.run none).1

/-- The fault that is kept where there was none before. -/
def fault (x : Checked α) : Option Fault := (x.run none).2

theorem run_slot (x : Checked α) (slot : Option Fault) : x.run slot = (x.value, slot.or x.fault) :=
  x.run_eq slot

instance : Monad Checked where
  pure a := ⟨fun slot => (a, slot), fun slot => by simp⟩
  bind x f :=
    { run := fun slot =>
        let (a, slot) := x.run slot
        (f a).run slot
      run_eq := fun slot => by simp [run_slot, Option.or_assoc] }

/-- Nothing in place of a faulty node. Only the first fault is kept. -/
def broken (f : Fault) : Checked Doc :=
  { run := fun slot => (.empty, if slot.isNone then some f else slot)
    run_eq := fun slot => by cases slot <;> rfl }

@[simp] theorem value_pure (a : α) : (pure a : Checked α).value = a := rfl

@[simp] theorem fault_pure (a : α) : (pure a : Checked α).fault = none := rfl

theorem run_bind (x : Checked α) (f : α → Checked β) (slot : Option Fault) :
    (x >>= f).run slot = (f x.value).run (slot.or x.fault) := by
  change (f (x.run slot).1).run (x.run slot).2 = _
  rw [run_slot x]

@[simp] theorem value_bind (x : Checked α) (f : α → Checked β) :
    (x >>= f).value = (f x.value).value := by
  rw [value, run_bind, run_slot]

@[simp] theorem fault_bind (x : Checked α) (f : α → Checked β) :
    (x >>= f).fault = x.fault.or (f x.value).fault := by
  rw [fault, run_bind, run_slot]
  rfl

@[simp] theorem value_map (f : α → β) (x : Checked α) : (f <$> x).value = f x.value :=
  value_bind x _

@[simp] theorem fault_map (f : α → β) (x : Checked α) : (f <$> x).fault = x.fault :=
  (fault_bind x _).trans (Option.or_none)

theorem ext {x y : Checked α} (hvalue : x.value = y.value)
    (hfault : x.fault = y.fault) : x = y := by
  have hrun : x.run = y.run := by
    funext slot
    rw [run_slot, run_slot, hvalue, hfault]
  cases x
  cases y
  simpa using hrun

instance : LawfulMonad Checked := LawfulMonad.mk' _
  (fun _ => ext (by simp [Functor.map]) (by simp [Functor.map]))
  (fun _ _ => ext (by simp) (by simp))
  (fun _ _ _ => ext (by simp) (by simp [Option.or_assoc]))

@[simp] theorem value_broken (f : Fault) : (broken f).value = .empty := rfl

@[simp] theorem fault_broken (f : Fault) : (broken f).fault = some f := rfl

end Checked

end Offside
