import Offside.Proofs.Hanging

/-!
# The texts of composed documents

A composed document is empty exactly if all its parts are, and it has the texts of its parts from
left to right. The combinators of a mode differ only in how they place their parts.
-/
namespace Offside

open Doc

/-! ### Documents that are not empty -/

namespace Doc

@[simp] theorem isEmpty_empty : empty.isEmpty = true := rfl

@[simp] theorem isEmpty_text (s : String) : (text s).isEmpty = false := rfl

@[simp] theorem isEmpty_beside (l : Doc) (spaced : Bool) (r : Doc) :
    (l.beside spaced r).isEmpty = (l.isEmpty && r.isEmpty) := by
  cases l <;> cases r <;> rfl

@[simp] theorem isEmpty_append (l r : Doc) : (l ++ r).isEmpty = (l.isEmpty && r.isEmpty) :=
  isEmpty_beside l false r

@[simp] theorem isEmpty_appendSpace (l r : Doc) :
    (l.appendSpace r).isEmpty = (l.isEmpty && r.isEmpty) :=
  isEmpty_beside l true r

@[simp] theorem isEmpty_above (u l : Doc) : (u.above l).isEmpty = (u.isEmpty && l.isEmpty) := by
  cases u <;> cases l <;> rfl

@[simp] theorem isEmpty_nest (k : Int) (d : Doc) : (d.nest k).isEmpty = d.isEmpty := by
  unfold nest
  by_cases h : (d.isEmpty || k == 0) = true
  · rw [if_pos h]
  · rw [if_neg h]
    simp only [Bool.or_eq_true, not_or, Bool.not_eq_true] at h
    rw [h.1]
    rfl

theorem isEmpty_filter (ds : List Doc) :
    (ds.filter fun d => !d.isEmpty).isEmpty = ds.all isEmpty := by
  induction ds with
  | nil => rfl
  | cons d ds ih => by_cases hd : d.isEmpty <;> simp [hd, ih]

theorem isEmpty_of_mem_filter {ds : List Doc} {d : Doc} (hd : d ∈ ds.filter fun d => !d.isEmpty) :
    d.isEmpty = false := by
  simpa using (List.mem_filter.mp hd).2

@[simp] theorem isEmpty_group (fill spaced : Bool) (ds : List Doc) :
    (group fill spaced ds).isEmpty = ds.all isEmpty := by
  have hmembers := fun d => @isEmpty_of_mem_filter ds d
  rw [← isEmpty_filter]
  unfold group
  generalize (ds.filter fun d => !d.isEmpty) = members at hmembers ⊢
  match members with
  | [] => rfl
  | [d] => exact hmembers d (by simp)
  | _ :: _ :: _ => rfl

theorem isEmpty_foldl {f : Doc → Doc → Doc} (hf : ∀ d e, (f d e).isEmpty = (d.isEmpty && e.isEmpty))
    (ds : List Doc) (d : Doc) : (ds.foldl f d).isEmpty = (d.isEmpty && ds.all isEmpty) := by
  induction ds generalizing d with
  | nil => simp
  | cons e ds ih => rw [List.foldl_cons, ih, hf, List.all_cons, Bool.and_assoc]

@[simp] theorem isEmpty_hsep (ds : List Doc) : (hsep ds).isEmpty = ds.all isEmpty :=
  isEmpty_foldl isEmpty_appendSpace ds .empty

@[simp] theorem isEmpty_vcat (ds : List Doc) : (vcat ds).isEmpty = ds.all isEmpty :=
  isEmpty_foldl isEmpty_above ds .empty

end Doc

namespace Mode

variable (m : Mode) (ds : List Doc)

@[simp] theorem isEmpty_sepFirst : (m.sepFirst ds).isEmpty = ds.all Doc.isEmpty := by
  unfold sepFirst
  split
  · rw [← isEmpty_filter]
    split
    · simp_all
    · next d ds h =>
      rw [h, isEmpty_appendSpace, isEmpty_of_mem_filter (h ▸ List.mem_cons_self)]
      rfl
  · exact isEmpty_hsep ds

@[simp] theorem isEmpty_lines : (m.lines ds).isEmpty = ds.all Doc.isEmpty := by
  unfold lines
  by_cases hm : m.isVertical <;> simp [hm]

@[simp] theorem isEmpty_fill : (m.fill ds).isEmpty = ds.all Doc.isEmpty := by
  unfold fill
  by_cases hm : m.isVertical <;> simp [hm, fsep]

@[simp] theorem isEmpty_fillOnside : (m.fillOnside ds).isEmpty = ds.all Doc.isEmpty := by
  unfold fillOnside
  by_cases hm : m.isVertical
  · have hmembers := fun d => @isEmpty_of_mem_filter ds d
    rw [if_pos hm, ← isEmpty_filter]
    generalize (ds.filter fun d => !d.isEmpty) = members at hmembers ⊢
    cases members with
    | nil => rfl
    | cons d ds => simp [fsep, hmembers]
  · simp [hm]

end Mode

/-! ### Texts -/

namespace Doc

@[simp] theorem leaves_beside (l : Doc) (spaced : Bool) (r : Doc) :
    (l.beside spaced r).leaves = l.leaves ++ r.leaves := by
  cases l <;> cases r <;> simp [beside, isEmpty, leaves]

@[simp] theorem leaves_append (l r : Doc) : (l ++ r).leaves = l.leaves ++ r.leaves :=
  leaves_beside l false r

@[simp] theorem leaves_appendSpace (l r : Doc) : (l.appendSpace r).leaves = l.leaves ++ r.leaves :=
  leaves_beside l true r

@[simp] theorem leaves_above (u l : Doc) : (u.above l).leaves = u.leaves ++ l.leaves := by
  cases u <;> cases l <;> simp [above, stack, isEmpty, leaves]

@[simp] theorem leaves_nest (k : Int) (d : Doc) : (d.nest k).leaves = d.leaves := by
  unfold nest
  split <;> simp [leaves]

theorem flatMap_leaves_filter (ds : List Doc) :
    (ds.filter fun d => !d.isEmpty).flatMap leaves = ds.flatMap leaves := by
  induction ds with
  | nil => rfl
  | cons d ds ih =>
    by_cases hd : d.isEmpty = true
    · rw [Doc.isEmpty_iff.mp hd, List.filter_cons_of_neg (by simp), ih]
      rfl
    · rw [List.filter_cons_of_pos (by simpa using hd), List.flatMap_cons, List.flatMap_cons, ih]

@[simp] theorem leaves_group (fill spaced : Bool) (ds : List Doc) :
    (group fill spaced ds).leaves = ds.flatMap leaves := by
  rw [← flatMap_leaves_filter]
  unfold group
  generalize (ds.filter fun d => !d.isEmpty) = members
  match members with
  | [] => rfl
  | [d] => simp
  | _ :: _ :: _ => rw [leaves, leavesAll_eq]

theorem leaves_foldl {f : Doc → Doc → Doc} (hf : ∀ d e, (f d e).leaves = d.leaves ++ e.leaves)
    (ds : List Doc) (d : Doc) : (ds.foldl f d).leaves = d.leaves ++ ds.flatMap leaves := by
  induction ds generalizing d with
  | nil => simp
  | cons e ds ih => rw [List.foldl_cons, ih, hf, List.flatMap_cons, List.append_assoc]

@[simp] theorem leaves_hsep (ds : List Doc) : (hsep ds).leaves = ds.flatMap leaves :=
  leaves_foldl leaves_appendSpace ds .empty

@[simp] theorem leaves_vcat (ds : List Doc) : (vcat ds).leaves = ds.flatMap leaves :=
  leaves_foldl leaves_above ds .empty

end Doc

namespace Mode

variable (m : Mode) (ds : List Doc)

@[simp] theorem leaves_aboveOrBeside (u l : Doc) :
    (m.aboveOrBeside u l).leaves = u.leaves ++ l.leaves := by
  unfold aboveOrBeside
  split <;> simp

@[simp] theorem leaves_sepFirst : (m.sepFirst ds).leaves = ds.flatMap leaves := by
  unfold sepFirst
  split
  · rw [← flatMap_leaves_filter]
    split <;> simp_all [fsep, leaves]
  · exact leaves_hsep ds

@[simp] theorem leaves_lines : (m.lines ds).leaves = ds.flatMap leaves := by
  unfold lines
  split <;> simp

@[simp] theorem leaves_fill : (m.fill ds).leaves = ds.flatMap leaves := by
  unfold fill
  split <;> simp [fsep]

@[simp] theorem leaves_fillOnside : (m.fillOnside ds).leaves = ds.flatMap leaves := by
  unfold fillOnside
  split
  · rw [← flatMap_leaves_filter]
    split <;> simp_all [fsep, leaves]
  · exact leaves_hsep ds

end Mode

end Offside
