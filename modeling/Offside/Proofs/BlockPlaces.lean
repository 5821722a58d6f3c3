import Offside.Proofs.Openings

/-!
# Where the blocks of a tree are printed

In the offside layout every atom of a plan is a part of the document that the plan makes. So every
piece of code is printed as part of the tree around it, and every block as part of the tree that it
belongs to.
-/
namespace Offside.Syntax

open Doc

/-- What the offside layout makes of an atom. -/
def Atom.doc (m : Mode) : Atom → Doc
  | .word s => .text s
  | .tree t level => (t.pretty m level).value
  | .block items => vcat (items.map (Node.doc m))

/-- The block that a tree is printed with. -/
def Node.block (m : Mode) (t : Node) : Doc := vcat (t.items.map (doc m))

section

variable {m : Mode} (hm : m.layout = .offside) {e : Doc} (he : e ≠ .empty)
include hm he

theorem Row.occurs_doc (arrangement : Row) {d : Doc} {ds : List Doc} (hd : d ∈ ds)
    (h : e.Occurs d) : e.Occurs (arrangement.doc m ds) := by
  cases arrangement with
  | sepFirst => exact Mode.occurs_sepFirst hm he hd h
  | lines => exact Mode.occurs_lines hm he hd h
  | fill => exact Mode.occurs_fill hm he hd h
  | fillOnside => exact Mode.occurs_fillOnside hm he hd h

theorem Node.occurs_introduce (t : Node) {d : Doc} (h : e.Occurs d) :
    e.Occurs (t.introduce m d) := by
  have hmarked : e.Occurs (t.mark?.elim d fun loc => m.markLine loc d) := by
    cases t.mark? with
    | none => exact h
    | some loc => exact Mode.occurs_markLine hm he loc h
  unfold introduce
  split
  · exact Mode.occurs_blankLine he hmarked
  · exact hmarked

theorem Sketch.occurs_doc {s : Sketch} {a : Atom} (ha : a ∈ s.atoms) (h : e.Occurs (a.doc m)) :
    e.Occurs (s.doc m) := by
  have hitems : ∀ {items : List Node}, a ∈ items.map (fun t => .tree t 0) →
      e.Occurs (vcat (items.map (Node.doc m))) := by
    intro items hmem
    obtain ⟨t, ht, rfl⟩ := List.mem_map.mp hmem
    exact h.vcat he (List.mem_map_of_mem ht)
  induction s using Sketch.inductOn with
  | nothing => simp at ha
  | word s =>
    obtain rfl := List.mem_singleton.mp ha
    exact h
  | tree t level =>
    obtain rfl := List.mem_singleton.mp ha
    exact h
  | beside l spaced r ihl ihr =>
    rcases List.mem_append.mp ha with ha | ha
    · exact (ihl ha).beside_left he spaced _
    · exact (ihr ha).beside_right he _ spaced
  | upon u l ihu ihl =>
    rcases List.mem_append.mp ha with ha | ha
    · exact Mode.occurs_aboveOrBeside_upper hm he (ihu ha) _
    · exact Mode.occurs_aboveOrBeside_lower hm he _ (ihl ha)
  | row arrangement parts ih =>
    rw [atoms_row] at ha
    obtain ⟨s, hs, ha⟩ := List.mem_flatMap.mp ha
    rw [doc_row]
    exact arrangement.occurs_doc hm he (List.mem_map_of_mem hs) (ih s hs ha)
  | clauses items =>
    rw [doc_clauses, Mode.clauses, hm]
    exact hitems ha
  | block indent items =>
    obtain rfl := List.mem_singleton.mp ha
    exact Mode.occurs_block hm h _
  | wheres items =>
    rw [atoms_wheres] at ha
    split at ha
    · simp at ha
    · obtain rfl := List.mem_singleton.mp ha
      exact Mode.occurs_whereClause hm he h
  | topLevel keyword header items ih =>
    rw [doc_topLevel, Mode.topLevel, hm]
    rw [atoms_topLevel, List.mem_append, List.mem_cons] at ha
    rcases ha with (rfl | ha) | ha
    · exact .stack_upper he (Mode.occurs_sepFirst hm he List.mem_cons_self h) true _
    · obtain ⟨s, hs, ha⟩ := List.mem_flatMap.mp ha
      have hmem : s.doc m ∈ Doc.text keyword :: header.map (doc m) :=
        List.mem_cons_of_mem _ (List.mem_map_of_mem hs)
      exact .stack_upper he (Mode.occurs_sepFirst hm he hmem (ih s hs ha)) true _
    · exact .stack_lower he _ true (hitems ha)

/-- What occurs in an atom of a tree's plan occurs in the document of the tree. -/
theorem Node.occurs_pretty {t : Node} (ht : t.lack? = none) (level : Nat) {a : Atom}
    (ha : a ∈ (t.sketch level).atoms) (h : e.Occurs (a.doc m)) :
    e.Occurs (t.pretty m level).value := by
  rw [value_pretty m ht level]
  exact t.occurs_introduce hm he (Sketch.occurs_doc hm he ha h)

end

namespace Node

theorem WellFormed.pretty_ne_empty {t : Node} (ht : t.WellFormed) (m : Mode) (level : Nat) :
    (t.pretty m level).value ≠ .empty := by
  obtain ⟨w, hw⟩ := ht.exists_begins m level
  intro h
  simpa [h] using hw.isEmpty

variable {m : Mode} (hm : m.layout = .offside)
include hm

/-- The code inside a tree is printed as a part of it. -/
theorem Inside.occurs_pretty {s t : Node} (h : s.Inside t) (hs : s.isCode = true)
    (ht : t.WellFormed) (level : Nat) :
    ∃ l, (s.pretty m l).value.Occurs (t.pretty m level).value := by
  induction h generalizing level with
  | here => exact ⟨level, .here⟩
  | @child t c hc inside ih =>
    obtain ⟨hlack, hbelow⟩ := wellFormed_iff.mp ht
    have hwell : c.WellFormed := List.forall_iff_forall_mem.mp hbelow c hc
    have hne := hwell.pretty_ne_empty m
    rcases shows_or_mem_block hc (isCode_of_inside inside hs)
        level with ⟨l, hshows⟩ | ⟨hblock, hitem⟩
    · obtain ⟨k, hk⟩ := ih hwell l
      exact ⟨k, hk.trans (Node.occurs_pretty hm (hne l) hlack level hshows .here)⟩
    · obtain ⟨k, hk⟩ := ih hwell 0
      have hmember : (c.doc m).Occurs (t.block m) := .vcat (hne 0) (List.mem_map_of_mem hitem) .here
      exact ⟨k, hk.trans (Node.occurs_pretty hm (hne 0) hlack level hblock hmember)⟩

/-- The block of a tree is a part of its document. -/
theorem occurs_block {t : Node} (ht : t.lack? = none) (hblock : t.block m ≠ .empty) (level : Nat) :
    (t.block m).Occurs (t.pretty m level).value := by
  have hne : t.items ≠ [] := by
    intro hitems
    simp [block, hitems, vcat] at hblock
  cases hmodule : t.isModule with
  | false => exact Node.occurs_pretty hm hblock ht level (block_mem_atoms hne hmodule level) .here
  | true =>
    cases t with
    | module mod =>
      rw [value_pretty m ht level, Node.sketch, Sketch.doc_topLevel, Mode.topLevel, hm]
      exact occurs_introduce hm hblock _ (.stack_lower hblock _ true .here)
    | _ => simp at hmodule

end Node

end Offside.Syntax
