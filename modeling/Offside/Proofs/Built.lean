import Offside.Proofs.OneLine
import Offside.Proofs.Reachable

/-!
# The documents that the combinators build

No combinator leaves an empty document inside another one, a group of fewer than two members, or a
nesting by nothing. So every task of a run has a proper document to lay out, and what has to stay on
one line can.
-/
namespace Offside

namespace Doc

/-- The documents that come of the combinators. -/
inductive Built : Doc → Prop where
  | empty : Built .empty
  | text (s : String) : Built (.text s)
  | beside {l r : Doc} (spaced : Bool) : Built l → Built r → Built (l.beside spaced r)
  | stack {u l : Doc} (overlap : Bool) : Built u → Built l → Built (u.stack overlap l)
  | nest {d : Doc} (k : Int) : Built d → Built (d.nest k)
  | group {ds : List Doc} (fill spaced : Bool) : (∀ d ∈ ds, Built d) → Built (group fill spaced ds)

/-- A document that is not empty and has no empty part, no small group and no nesting by nothing. -/
inductive Solid : Doc → Prop where
  | text (s : String) : Solid (.text s)
  | nested {k : Int} {d : Doc} : k ≠ 0 → Solid d → Solid (.nested k d)
  | joined {l r : Doc} {spaced : Bool} : Solid l → Solid r → Solid (.joined l spaced r)
  | stacked {u l : Doc} {overlap : Bool} : Solid u → Solid l → Solid (.stacked u overlap l)
  | grouped {ds : List Doc} {fill spaced : Bool} :
      2 ≤ ds.length → (∀ d ∈ ds, Solid d) → Solid (.grouped fill spaced ds)

/-- Empty as a whole, or nowhere. -/
def Sound (d : Doc) : Prop := d = .empty ∨ d.Solid

theorem Sound.solid {d : Doc} (hd : d.Sound) (hne : ¬ d.isEmpty) : d.Solid := by
  rcases hd with rfl | hd
  · exact absurd rfl hne
  · exact hd

theorem Built.sound {d : Doc} (hd : d.Built) : d.Sound := by
  induction hd with
  | empty => exact .inl rfl
  | text s => exact .inr (.text s)
  | @beside l r spaced _ _ ihl ihr =>
    unfold Doc.beside
    split_ifs with hl hr
    · exact ihr
    · exact ihl
    · exact .inr (.joined (ihl.solid hl) (ihr.solid hr))
  | @stack u l overlap _ _ ihu ihl =>
    unfold Doc.stack
    split_ifs with hu hl
    · exact ihl
    · exact ihu
    · exact .inr (.stacked (ihu.solid hu) (ihl.solid hl))
  | @nest d k _ ih =>
    unfold Doc.nest
    split_ifs with h
    · exact ih
    · simp only [Bool.or_eq_true, beq_iff_eq, not_or] at h
      exact .inr (.nested h.2 (ih.solid h.1))
  | @group ds fill spaced _ ih =>
    have hsolid : ∀ d ∈ ds.filter fun d => !d.isEmpty, d.Solid := by
      intro d hd
      obtain ⟨hmem, hne⟩ := List.mem_filter.mp hd
      exact (ih d hmem).solid (by simpa using hne)
    unfold Doc.group
    split
    · exact .inl rfl
    · next d heq => exact .inr (hsolid d (by simp [heq]))
    · next members hnil hone =>
      refine .inr (.grouped ?_ hsolid)
      match h : ds.filter fun d => !d.isEmpty with
      | [] => exact absurd h hnil
      | [d] => exact absurd h (hone d)
      | _ :: _ :: _ => simp [h]

end Doc

/-- The documents of a task are sound, and what has to stay on one line can. -/
def Task.Sound : Task → Prop
  | .render _ fit d | .align fit d => d.Sound ∧ (fit = .flat → ∃ w, d.flat? = some w)
  | .space => True
  | .below _ _ d => d.Sound
  | .fill _ _ rest _ => ∀ d ∈ rest, d.Sound

theorem Doc.Sound.mem {ds : List Doc} {fill spaced : Bool} {d : Doc}
    (h : (grouped fill spaced ds).Sound) (hd : d ∈ ds) : d.Sound := by
  cases h.solid (by simp [isEmpty]) with
  | grouped _ hall => exact .inr (hall d hd)

theorem skip_sound (spaced : Bool) : ∀ t ∈ (if spaced then [Task.space] else []), t.Sound := by
  cases spaced <;> simp [Task.Sound]

theorem flatTasks_sound {spaced : Bool} {ds : List Doc} {w : Nat} (hsound : ∀ d ∈ ds, d.Sound)
    (hw : Doc.flatSum? ds = some w) : ∀ t ∈ flatTasks spaced ds, t.Sound := by
  induction ds generalizing w with
  | nil => simp [flatTasks]
  | cons d ds ih =>
    obtain ⟨a, b, ha, hb, -⟩ := flatSum?_cons_iff.mp hw
    have hd : (Task.render 0 .flat d).Sound := ⟨hsound d (by simp), fun _ => ⟨a, ha⟩⟩
    have hds := ih (fun e he => hsound e (by simp [he])) hb
    cases ds with
    | nil => simpa [flatTasks] using hd
    | cons e ds =>
      simp only [flatTasks, List.cons_append, List.forall_mem_cons, List.forall_mem_append]
      exact ⟨hd, skip_sound spaced, hds⟩

/-- A group goes on one line because it has to or because it fits. -/
theorem flat_choice {limits : Limits} {c : Cursor} {follow : Nat} {fit : Fit} {d : Doc}
    (hflat : fit = .flat → ∃ w, d.flat? = some w)
    (h : (decide (fit = .flat) || d.flat?.any fun w => c.fits limits (w + follow)) = true) :
    ∃ w, d.flat? = some w ∧ (fit = .flat ∨ c.fits limits (w + follow)) := by
  rcases Bool.or_eq_true_iff.mp h with h | h
  · have hfit : fit = .flat := by simpa using h
    obtain ⟨w, hw⟩ := hflat hfit
    exact ⟨w, hw, .inl hfit⟩
  · obtain ⟨w, hw, hfits⟩ := (Option.any_eq_true _ _).mp h
    exact ⟨w, hw, .inr hfits⟩

/-- A member goes after the one before it only if it fits. -/
theorem joins_choice {limits : Limits} {c : Cursor} {after : List Task} {spaced : Bool} {d : Doc}
    {ds : List Doc} {startLine : Nat} (h : joins limits c after spaced d ds startLine) :
    ∃ w, d.flat? = some w ∧ c.fits limits (Doc.gap spaced + w +
      followLast (restOfLine after) ds) := by
  rw [joins_eq_joinsAt, joinsAt, Bool.and_eq_true] at h
  exact (Option.any_eq_true _ _).mp h.2

theorem skipped_sound {spaced : Bool} {ts : List Task} (hts : ∀ t ∈ ts, t.Sound) :
    ∀ t ∈ (if spaced then [Task.space] else []) ++ ts, t.Sound :=
  List.forall_mem_append.mpr ⟨skip_sound spaced, hts⟩

/-- The tasks that take the place of a sound one are sound. -/
theorem Task.Unfolds.sound {t : Task} {ts : List Task} (h : t.Unfolds ts) (ht : t.Sound) :
    ∀ u ∈ ts, u.Sound := by
  induction h with
  | empty | text | nothing | space | filled => simp
  | nested i j k fit d =>
    obtain ⟨hd, hflat⟩ := ht
    cases hd.solid (by simp [Doc.isEmpty]) with
    | nested _ hd => simpa using ⟨.inr hd, hflat⟩
  | joined i fit l spaced r =>
    obtain ⟨hd, hflat⟩ := ht
    cases hd.solid (by simp [Doc.isEmpty]) with
    | joined hl hr =>
      rw [List.cons_append, List.forall_mem_cons]
      refine ⟨⟨.inr hl, fun h => ?_⟩, skipped_sound ?_⟩
      · obtain ⟨w, hw⟩ := hflat h
        obtain ⟨a, b, ha, -⟩ := flat?_joined_iff.mp hw
        exact ⟨a, ha⟩
      · simp only [List.mem_singleton, forall_eq]
        refine ⟨.inr hr, fun h => ?_⟩
        obtain ⟨w, hw⟩ := hflat h
        obtain ⟨a, b, -, hb, -⟩ := flat?_joined_iff.mp hw
        exact ⟨b, hb⟩
  | stacked i fit u overlap l =>
    cases ht.1.solid (by simp [Doc.isEmpty]) with
    | stacked hu hl =>
      simp only [List.forall_mem_cons]
      exact ⟨⟨.inr hu, by simp⟩, .inr hl, by simp⟩
  | @row i fit fill spaced ds h =>
    obtain ⟨hd, hflat⟩ := ht
    obtain ⟨w, hw⟩ : ∃ w, (Doc.grouped fill spaced ds).flat? = some w :=
      h.elim hflat Option.isSome_iff_exists.mp
    obtain ⟨b, hb, -⟩ := Option.map_eq_some_iff.mp hw
    exact flatTasks_sound (fun e he => hd.mem he) hb
  | filling i fit spaced m ms line =>
    simp only [List.forall_mem_cons]
    exact ⟨⟨ht.1.mem (by simp), by simp⟩, fun e he => ht.1.mem (by simp [he]), by simp⟩
  | column i fit spaced m ms =>
    simp only [List.forall_mem_cons, List.forall_mem_map]
    exact ⟨⟨ht.1.mem (by simp), by simp⟩, fun e he => ht.1.mem (by simp [he])⟩
  | align _ ih => exact ih ht
  | under i overlap d => simpa using ⟨ht, by simp⟩
  | member i spaced ds line line' h =>
    obtain ⟨hd, hds⟩ := List.forall_mem_cons.mp ht
    refine skipped_sound ?_
    simp only [List.forall_mem_cons]
    exact ⟨⟨hd, fun _ => Option.isSome_iff_exists.mp h⟩, hds, by simp⟩
  | lower i spaced d ds line line' =>
    obtain ⟨hd, hds⟩ := List.forall_mem_cons.mp ht
    simp only [List.forall_mem_cons]
    exact ⟨⟨hd, by simp⟩, hds, by simp⟩

/-- All tasks of a run are sound. -/
theorem reachable_sound {style : Style} {d : Doc} (hd : d.Built) {out : List Chunk} {s : State}
    (h : Reaches style.limits (.start style d) out s) : ∀ t ∈ s.stack, t.Sound := by
  refine h.keeps (P := fun s => ∀ t ∈ s.stack, t.Sound) ?_ ?_
  · intro c t after hall u hu
    rcases List.mem_append.mp hu with hu | hu
    · exact (step_unfolds _ _ _ _).sound (hall t (by simp)) u hu
    · exact hall u (by simp [hu])
  · intro t ht
    obtain rfl := List.mem_singleton.mp ht
    exact ⟨hd.sound, by simp⟩

end Offside
