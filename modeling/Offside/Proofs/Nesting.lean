import Offside.Proofs.Equivalence
import Offside.Proofs.Leaves

/-!
# Nesting moves a document as a whole

Nesting adds to the column of every line that a document starts and to nothing else. So it adds up,
it goes into the left of two neighbours and is lost on the right one, whose column is where the left
one ends, and it goes into all the documents that stand below each other. A group may also be laid
out on one line, where no column comes from the indentation.
-/
namespace Offside

open Doc

namespace Doc

/-- On one line nothing is placed by the indentation. -/
theorem lay_flat_indent {d : Doc} {w : Nat} (hw : d.flat? = some w) (limits : Limits)
    (follow : Nat) (i j : Int) (c : Cursor) :
    d.lay limits follow i .flat c = d.lay limits follow j .flat c := by
  induction d using Doc.inductOn generalizing w follow i j c with
  | empty => rw [Doc.lay, Doc.lay]
  | text s => rw [Doc.lay, Doc.lay]
  | nested k d ih =>
    rw [Doc.lay, Doc.lay]
    exact ih hw follow (i + k) (j + k) c
  | joined l spaced r ihl ihr =>
    obtain ⟨a, b, ha, hb, -⟩ := flat?_joined_iff.mp hw
    rw [Doc.lay, Doc.lay, ihl ha _ i j]
  | stacked u overlap l ihu ihl => simp [flat?] at hw
  | grouped fill spaced ds ih =>
    cases ds with
    | nil => rw [Doc.lay, Doc.lay]
    | cons m ms =>
      rw [Doc.lay, Doc.lay]
      simp

theorem below_nested (c : Cursor) (discipline : Discipline) (indent : Int) (overlap : Bool)
    (k : Int) (d : Doc) :
    c.below discipline indent overlap (.nested k d) =
      c.below discipline (indent + k) overlap d := by
  have htarget : indent + (Doc.nested k d).lead = indent + k + d.lead := by rw [lead, Int.add_assoc]
  rw [Cursor.below, Cursor.below, htarget]

namespace Alike

variable {a b d e : Doc}

theorem symm (h : d.Alike e) : e.Alike d where
  isEmpty := h.isEmpty.symm
  flat? := h.flat?.symm
  lead := h.lead.symm
  breaks := h.breaks.symm
  first := h.first.symm
  lay limits follow indent fit c hflat := by
    symm
    apply h.lay
    rwa [h.flat?]

theorem trans (hab : a.Alike b) (hbd : b.Alike d) : a.Alike d where
  isEmpty := hab.isEmpty.trans hbd.isEmpty
  flat? := hab.flat?.trans hbd.flat?
  lead := hab.lead.trans hbd.lead
  breaks := hab.breaks.trans hbd.breaks
  first := hab.first.trans hbd.first
  lay limits follow indent fit c hflat := by
    rw [hab.lay _ _ _ _ _ hflat]
    apply hbd.lay
    rwa [← hab.flat?]

/-! ### Nodes that nest -/

theorem nested_nested (j k : Int) (d : Doc) :
    (Doc.nested j (.nested k d)).Alike (.nested (j + k) d) where
  isEmpty := rfl
  flat? := rfl
  lead := by rw [Doc.lead, Doc.lead, Doc.lead, Int.add_assoc]
  breaks := rfl
  first := rfl
  lay limits follow indent fit c _ := by rw [Doc.lay, Doc.lay, Doc.lay, Int.add_assoc]

theorem nested_joined (k : Int) (l : Doc) (spaced : Bool) (r : Doc) :
    (Doc.nested k (.joined l spaced r)).Alike (.joined (.nested k l) spaced r) where
  isEmpty := rfl
  flat? := rfl
  lead := rfl
  breaks := rfl
  first := rfl
  lay limits follow indent fit c _ := by rw [Doc.lay, Doc.lay, Doc.lay, Doc.lay]

/-- The right neighbour is moved to the column where the left one ends, and its own nesting is taken
back. -/
theorem joined_nested (k : Int) (l : Doc) (spaced : Bool) (r : Doc) :
    (Doc.joined l spaced (.nested k r)).Alike (.joined l spaced r) where
  isEmpty := rfl
  flat? := rfl
  lead := rfl
  breaks := rfl
  first := rfl
  lay limits follow indent fit c _ := by
    rw [Doc.lay, Doc.lay]
    apply Laid.andThen_congr
    dsimp only
    rw [Doc.lay, Doc.lead]
    congr 1
    omega

theorem nested_stacked (k : Int) (u : Doc) (overlap : Bool) (l : Doc) :
    (Doc.nested k (.stacked u overlap l)).Alike (.stacked (.nested k u) overlap (.nested k l)) where
  isEmpty := rfl
  flat? := rfl
  lead := rfl
  breaks := rfl
  first := rfl
  lay limits follow indent fit c _ := by
    rw [Doc.lay, Doc.lay, Doc.lay, Doc.lay]
    apply Laid.andThen_congr
    rw [below_nested]
    apply Laid.andThen_congr
    rw [Doc.lay]

end Alike

/-! ### Groups of nested members -/

section

variable (k : Int) (limits : Limits) (follow : Nat) (spaced : Bool)

theorem flatSum?_nested (ds : List Doc) : flatSum? (ds.map (.nested k)) = flatSum? ds := by
  induction ds with
  | nil => rfl
  | cons d ds ih => rw [List.map_cons, flatSum?, flatSum?, ih, flat?]

theorem flat?_grouped_nested (fill : Bool) (ds : List Doc) :
    (Doc.grouped fill spaced (ds.map (.nested k))).flat? = (Doc.grouped fill spaced ds).flat? := by
  rw [flat?, flat?, flatSum?_nested, List.length_map]

theorem followLast_nested (ds : List Doc) :
    followLast follow (ds.map (.nested k)) = followLast follow ds := by
  cases ds <;> rfl

theorem aheadAll_nested (ds : List Doc) :
    aheadAll spaced follow (ds.map (.nested k)) = aheadAll spaced follow ds := by
  induction ds with
  | nil => rfl
  | cons d ds ih =>
    rw [List.map_cons, aheadAll, aheadAll, ih]
    rfl

theorem layFlat_nested {ds : List Doc} {w : Nat} (hw : flatSum? ds = some w) (c : Cursor) :
    layFlat limits follow spaced (ds.map (.nested k)) c = layFlat limits follow spaced ds c := by
  induction ds generalizing w c with
  | nil => rfl
  | cons d ds ih =>
    obtain ⟨a, b, ha, hb, -⟩ := flatSum?_cons_iff.mp hw
    rw [List.map_cons, layFlat, layFlat, aheadAll_nested, Doc.lay, lay_flat_indent ha _ _ (0 + k) 0]
    exact Laid.andThen_congr (ih hb _)

theorem layBelow_nested (indent : Int) (ds : List Doc) (c : Cursor) :
    layBelow limits follow indent (ds.map (.nested k)) c =
      layBelow limits follow (indent + k) ds c := by
  induction ds generalizing c with
  | nil => rfl
  | cons d ds ih =>
    rw [List.map_cons, layBelow, layBelow, below_nested, followLast_nested]
    apply Laid.andThen_congr
    rw [Doc.lay]
    exact Laid.andThen_congr (ih _)

theorem layFill_nested (indent : Int) (startLine : Nat) (ds : List Doc) (c : Cursor) :
    layFill limits follow indent spaced startLine (ds.map (.nested k)) c =
      layFill limits follow (indent + k) spaced startLine ds c := by
  induction ds generalizing startLine c with
  | nil => rfl
  | cons d ds ih =>
    have hjoins : joinsAt limits follow spaced startLine (.nested k d) (ds.map (.nested k)) c =
        joinsAt limits follow spaced startLine d ds c := by
      rw [joinsAt, joinsAt, followLast_nested, flat?]
    rw [List.map_cons, layFill, layFill, hjoins, followLast_nested]
    by_cases hjoin : joinsAt limits follow spaced startLine d ds c
    · rw [if_pos hjoin, if_pos hjoin, Doc.lay]
      exact Laid.andThen_congr (ih _ _)
    · rw [if_neg hjoin, if_neg hjoin, below_nested]
      apply Laid.andThen_congr
      rw [Doc.lay]
      exact Laid.andThen_congr (ih _ _)

end

/-- The first member is on the line where the group starts and the others below it, or all are on
one line. -/
theorem Alike.nested_grouped (k : Int) (fill spaced : Bool) (m : Doc) (ms : List Doc) :
    (Doc.nested k (.grouped fill spaced (m :: ms))).Alike
      (.grouped fill spaced ((m :: ms).map (.nested k))) where
  isEmpty := rfl
  flat? := (flat?_grouped_nested k spaced fill (m :: ms)).symm
  lead := rfl
  breaks := rfl
  first := rfl
  lay limits follow indent fit c hfit := by
    have hwidth := flat?_grouped_nested k spaced fill (m :: ms)
    rw [List.map_cons] at hwidth ⊢
    rw [Doc.flat?] at hfit
    rw [Doc.lay, Doc.lay, Doc.lay, hwidth]
    by_cases hline : decide (fit = .flat) || (Doc.grouped fill spaced (m :: ms)).flat?.any fun w =>
      c.fits limits (w + follow)
    · obtain ⟨w, hw, -⟩ := flat_choice hfit hline
      obtain ⟨a, b, ha, hb, -⟩ := flat?_grouped_iff.mp hw
      rw [if_pos hline, if_pos hline, aheadAll_nested, Doc.lay, lay_flat_indent ha _ _ (0 + k) 0]
      exact Laid.andThen_congr (layFlat_nested k _ _ _ hb _).symm
    · rw [if_neg hline, if_neg hline, followLast_nested, Doc.lay]
      apply Laid.andThen_congr
      rw [layFill_nested, layBelow_nested]

/-! ### Combinators -/

namespace Alike

variable {a d : Doc}

/-- The combinator leaves the node out where it would move nothing. -/
theorem nest_nested (hd : d.isEmpty = false) (k : Int) : (d.nest k).Alike (.nested k d) := by
  unfold Doc.nest
  by_cases hk : k = 0
  · rw [if_pos (by simp [hk]), hk]
    exact ⟨hd, rfl, (Int.zero_add _).symm, rfl, rfl,
      fun _ _ _ _ _ _ => by rw [Doc.lay, Int.add_zero]⟩
  · rw [if_neg (by simp [hd, hk])]
    exact .refl _

theorem nest_nest (j k : Int) (d : Doc) : ((d.nest k).nest j).Alike (d.nest (j + k)) := by
  by_cases hd : d.isEmpty
  · rw [Doc.isEmpty_iff.mp hd]
    exact .refl _
  · rw [Bool.not_eq_true] at hd
    have hinner : (d.nest k).isEmpty = false := by rw [isEmpty_nest, hd]
    apply (nest_nested hinner j).trans
    apply ((nest_nested hd k).nested j).trans
    exact (nested_nested j k d).trans (nest_nested hd (j + k)).symm

theorem nest_beside (ha : a.isEmpty = false) (k : Int) (spaced : Bool) (b : Doc) :
    ((a.beside spaced b).nest k).Alike ((a.nest k).beside spaced b) := by
  have hnest : (a.nest k).isEmpty = false := by rw [isEmpty_nest, ha]
  by_cases hb : b.isEmpty
  · simp only [Doc.beside, ha, hnest, hb]
    exact .refl _
  · simp only [Doc.beside, ha, hnest, hb]
    apply (nest_nested rfl k).trans
    exact (nested_joined k a spaced b).trans ((nest_nested ha k).symm.joined spaced (.refl b))

theorem beside_nest (ha : a.isEmpty = false) (spaced : Bool) (k : Int) (b : Doc) :
    (a.beside spaced (b.nest k)).Alike (a.beside spaced b) := by
  by_cases hb : b.isEmpty
  · rw [Doc.isEmpty_iff.mp hb]
    exact .refl _
  · rw [Bool.not_eq_true] at hb
    simp only [Doc.beside, ha, isEmpty_nest, hb]
    exact ((Alike.refl a).joined spaced (nest_nested hb k)).trans (joined_nested k a spaced b)

theorem nest_stack (k : Int) (a : Doc) (overlap : Bool) (b : Doc) :
    ((a.stack overlap b).nest k).Alike ((a.nest k).stack overlap (b.nest k)) := by
  by_cases ha : a.isEmpty
  · rw [Doc.isEmpty_iff.mp ha]
    exact .refl _
  by_cases hb : b.isEmpty
  · simp only [Doc.stack, isEmpty_nest, ha, hb]
    exact .refl _
  rw [Bool.not_eq_true] at ha hb
  simp only [Doc.stack, isEmpty_nest, ha, hb]
  apply (nest_nested rfl k).trans
  exact (nested_stacked k a overlap b).trans
    ((nest_nested ha k).symm.stacked overlap (nest_nested hb k).symm)

/-- The same members are left out before and after they are nested. -/
theorem nest_group (k : Int) (fill spaced : Bool) (ds : List Doc) :
    ((Doc.group fill spaced ds).nest k).Alike (Doc.group fill spaced (ds.map (Doc.nest k))) := by
  have hkept : (ds.map (Doc.nest k)).filter (fun d => !d.isEmpty) =
      (ds.filter fun d => !d.isEmpty).map (Doc.nest k) := by
    rw [List.filter_map]
    congr 2
    funext d
    rw [Function.comp_apply, isEmpty_nest]
  have hfull : ∀ d ∈ ds.filter fun d => !d.isEmpty, d.isEmpty = false := by simp
  unfold Doc.group
  rw [hkept]
  generalize ds.filter (fun d => !d.isEmpty) = members at hfull
  rcases members with _ | ⟨d, _ | ⟨e, rest⟩⟩
  · exact .refl _
  · exact .refl _
  · apply (nest_nested rfl k).trans
    apply (nested_grouped k fill spaced d (e :: rest)).trans
    have hmembers : List.Forall₂ Alike ((d :: e :: rest).map (.nested k))
        ((d :: e :: rest).map (Doc.nest k)) := by
      rw [List.forall₂_map_left_iff, List.forall₂_map_right_iff, List.forall₂_same]
      intro member hmember
      exact (nest_nested (hfull member hmember) k).symm
    exact Alike.grouped hmembers fill spaced

end Alike

end Doc

/-- Nestings add up. Of two neighbours the left one takes the nesting of both, if there is one, and
that of the right one has no effect; documents below each other and the members of a group are
nested each by itself. -/
theorem nest_distributes (j k : Int) (a b : Doc) (ds : List Doc) :
    ((a.nest k).nest j).Equivalent (a.nest (j + k)) ∧
      (a.isEmpty = false → ∀ spaced,
        ((a.beside spaced b).nest k).Equivalent ((a.nest k).beside spaced b) ∧
        (a.beside spaced (b.nest k)).Equivalent (a.beside spaced b)) ∧
      (∀ overlap, ((a.stack overlap b).nest k).Equivalent ((a.nest k).stack overlap (b.nest k))) ∧
      ∀ g ∈ [sep, cat, fsep, fcat], ((g ds).nest k).Equivalent (g (ds.map (nest k))) := by
  refine ⟨(Alike.nest_nest j k a).equivalent, fun ha spaced => ⟨?_, ?_⟩, fun overlap => ?_,
    fun g hg => ?_⟩
  · exact (Alike.nest_beside ha k spaced b).equivalent
  · exact (Alike.beside_nest ha spaced k b).equivalent
  · exact (Alike.nest_stack k a overlap b).equivalent
  · have hgroup : ∃ fill spaced, g = group fill spaced := by
      simp only [List.mem_cons, List.not_mem_nil, or_false] at hg
      rcases hg with rfl | rfl | rfl | rfl
      · exact ⟨false, true, rfl⟩
      · exact ⟨false, false, rfl⟩
      · exact ⟨true, true, rfl⟩
      · exact ⟨true, false, rfl⟩
    obtain ⟨fill, spaced, rfl⟩ := hgroup
    exact (Alike.nest_group k fill spaced ds).equivalent

theorem guarded_arguments_nest :
    let call := text "f"
    let arguments := [text "x", parens (text "y")]
    let f (d : Doc) : Doc := (text "g").above (d.nest 4)
    let style : Style := { lineLength := 5 }
    call.isEmpty = false ∧ fsep ∈ [sep, cat, fsep, fcat] ∧ Surrounding f ∧
      (f (call.appendSpace ((fsep arguments).nest 3))).chunks style =
      (f (call.appendSpace (fsep arguments))).chunks style ∧
      (f ((fsep arguments).nest (-2))).chunks style =
      (f (fsep (arguments.map (nest (-2))))).chunks style := by
  intro call arguments f style
  have hf : Surrounding f := .stack true (.fixed _) (.nest 4 .place)
  have hfsep : fsep ∈ [sep, cat, fsep, fcat] := by simp
  have hcall := (nest_distributes 0 3 call (fsep arguments) []).2.1 rfl true
  have hmembers := (nest_distributes 0 (-2) call call arguments).2.2.2 fsep hfsep
  exact ⟨rfl, hfsep, hf, hcall.2 f hf style, hmembers f hf style⟩

end Offside
