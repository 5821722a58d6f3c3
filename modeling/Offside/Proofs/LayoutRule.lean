import Offside.Proofs.BlockPlaces
import Offside.Proofs.PrintedDecls

/-!
# The layout rule

On a page the items of every block of a tree start at one column, and no line inside an item starts
left of it or at it, but for the empty line and the pragma above an item and the further clauses of
a function. This holds for every width of the page, wherever the block stands.
-/
namespace Offside.Syntax

open Doc

variable {m : Mode}

theorem Node.Printed.flush {t : Node} (ht : t.Printed m) (level : Nat) :
    (t.pretty m level).Meets Flush := by
  refine (ht level).mono fun d hd => ?_
  cases t with
  | name => exact hd.1.flush
  | qname => exact hd.1.flush
  | decl => exact hd.1.flush
  | clause => exact hd.1.flush
  | importDecl => exact hd.1.flush
  | module => exact Headed.flush_of_nonneg hd (Int.le_refl 0)
  | rhs => exact Headed.flush_of_nonneg hd (Int.le_refl 0)
  | guardedAlts => exact Headed.flush_of_nonneg hd (Int.le_refl 0)
  | fieldDecl => exact Headed.flush_of_nonneg hd (Int.le_refl 0)
  | _ => exact Headed.flush hd

namespace Node

theorem mem_items_cases {i t : Node} (h : i ∈ t.items) :
    (∃ node, i = .importDecl node) ∨ (∃ node, i = .decl node) ∨ (∃ node, i = .stmt node) ∨
      ∃ node, i = .alt node := by
  unfold items at h
  split at h <;> grind

/-- What stands in a block is an item with its marks. -/
theorem Printed.isItem {i t : Node} (hi : i.Printed m) (h : i ∈ t.items) :
    (i.pretty m 0).Meets fun d => d.IsItem (i.marks m) ∧ d.lead = 0 := by
  rcases mem_items_cases h with ⟨node, rfl⟩ | ⟨node, rfl⟩ | ⟨node, rfl⟩ | ⟨node, rfl⟩
  · exact hi 0
  · exact hi 0
  · exact (hi 0).mono fun d hd => ⟨Headed.isItem hd, Headed.lead hd⟩
  · exact (hi 0).mono fun d hd => ⟨Headed.isItem hd, Headed.lead hd⟩

end Node

/-- The block of a tree inside another one, and its items. -/
theorem Node.Inside.block {s t : Node} (h : s.Inside t) (hm : m.Indented) (ht : t.PlainlyNamed)
    (hne : s.items ≠ []) (level : Nat) : (t.pretty m level).Meets fun d => (s.block m).Occurs d ∧
      ∀ i ∈ s.items, (i.doc m).IsItem (i.marks m) ∧ (i.doc m).lead = 0 := by
  intro hfault
  have hwell : t.WellFormed := fault_eq_none_iff.mp hfault
  have hitems : ∀ i ∈ s.items, (i.doc m).IsItem (i.marks m) ∧ (i.doc m).lead = 0 := by
    intro i hi
    have hinside : i.Inside s := .child (mem_children_of_items hi) .here
    have hnamed : i.PlainlyNamed := (ht.inside h).inside hinside
    exact (hnamed.printed hm).isItem hi (fault_eq_none_iff.mpr ((hwell.inside h).inside hinside))
  have hblock : s.block m ≠ .empty := by
    refine vcat_ne_empty ?_ (by simpa using hne)
    simp only [List.forall_mem_map]
    exact fun i hi => (hitems i hi).1.ne_empty
  obtain ⟨l, hocc⟩ := h.occurs_pretty hm.offside (isCode_of_items hne) hwell level
  obtain ⟨hlack, -⟩ := wellFormed_iff.mp (hwell.inside h)
  exact ⟨(occurs_block hm.offside hlack hblock l).trans hocc, hitems⟩

end Offside.Syntax
