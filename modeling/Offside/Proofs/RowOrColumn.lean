import Offside.Proofs.Equivalence
import Offside.Proofs.MachineWords

/-!
# A group is a row or a column

A group that does not fill its lines lays out its members side by side if they have room on one
line, and otherwise one below the other. Alone on a page it looks ahead to nothing, so it is laid
out as the row of its members or as their column. Inside the row every group fits as well, and the
column starts each member where the group would.
-/
namespace Offside

open Doc

/-- Whether a document of width `w` on one line has room there if it is laid out alone. Widths from
2^63 on are no room at all. -/
def Style.hasRoom (style : Style) (lead : Int) (w : Nat) : Bool :=
  match style.discipline with
  | .left => true
  | .oneLine => false
  | .page =>
    style.lineLength.toNat < 2 ^ 63 && style.ribbonWidth.toNat < 2 ^ 63 &&
      max lead 0 + w ≤ style.lineLength.toNat && w ≤ style.ribbonWidth.toNat

/-- From the sign bit on a word is a negative column. -/
theorem toInt_toInt64_neg {n : UInt64} (hn : 2 ^ 63 ≤ n.toNat) : n.toInt64.toInt < 0 := by
  change n.toBitVec.toInt < 0
  rw [BitVec.toInt_eq_toNat_cond, UInt64.toNat_toBitVec, if_neg (by omega)]
  have := n.toNat_lt
  omega

theorem start_fits_eq_hasRoom (style : Style) (d : Doc) (w : Nat) :
    (Cursor.start style.discipline d).fits style.limits w = style.hasRoom d.lead w := by
  have hdiscipline : style.limits.discipline = style.discipline := rfl
  unfold Cursor.fits Style.hasRoom
  rw [hdiscipline]
  cases hpage : style.discipline with
  | left => rfl
  | oneLine => rfl
  | page =>
    rw [Bool.eq_iff_iff]
    simp only [Cursor.start, Style.limits, Bool.and_eq_true, decide_eq_true_eq]
    by_cases hline : style.lineLength.toNat < 2 ^ 63
    · by_cases hribbon : style.ribbonWidth.toNat < 2 ^ 63
      · rw [toInt_toInt64 hline, toInt_toInt64 hribbon]
        omega
      · have := toInt_toInt64_neg (Nat.le_of_not_lt hribbon)
        omega
    · have := toInt_toInt64_neg (Nat.le_of_not_lt hline)
      omega

namespace Doc

/-! ### Folds of one composition -/

namespace Composition

variable (op : Composition)

theorem lead_node (d e : Doc) : (op.node d e).lead = d.lead := by
  cases op <;> rfl

theorem lead_foldl_node (d : Doc) (ds : List Doc) : (ds.foldl op.node d).lead = d.lead := by
  induction ds generalizing d with
  | nil => rfl
  | cons e ds ih => rw [List.foldl_cons, ih, lead_node]

/-- Empty documents leave no trace. -/
theorem foldl_apply_filter (d : Doc) (ds : List Doc) :
    ds.foldl op.apply d = (ds.filter fun e => !e.isEmpty).foldl op.apply d := by
  induction ds generalizing d with
  | nil => rfl
  | cons e ds ih =>
    by_cases he : e.isEmpty
    · rw [List.filter_cons_of_neg (by simp [he]), List.foldl_cons, Doc.isEmpty_iff.mp he,
        apply_empty, ih]
    · rw [List.filter_cons_of_pos (by simp [he]), List.foldl_cons, List.foldl_cons, ih]

theorem foldl_apply_eq_node {d : Doc} (hd : d.isEmpty = false) {ds : List Doc}
    (hds : ∀ e ∈ ds, e.isEmpty = false) : ds.foldl op.apply d = ds.foldl op.node d := by
  induction ds generalizing d with
  | nil => rfl
  | cons e ds ih =>
    obtain ⟨he, hds⟩ := List.forall_mem_cons.mp hds
    rw [List.foldl_cons, List.foldl_cons, op.apply_eq_node hd he, ih (op.isEmpty_node d e) hds]

end Composition

/-! ### Rows -/

/-- Members side by side have the pieces of their group on one line. -/
theorem row_foldl_joined (fill spaced : Bool) (m : Doc) (ms : List Doc) :
    (ms.foldl (Composition.beside spaced).node m).row = (grouped fill spaced (m :: ms)).row := by
  rw [row]
  induction ms generalizing m with
  | nil => simp [rowMore]
  | cons d ds ih =>
    rw [List.foldl_cons, ih, Composition.node, row, rowMore, ← List.append_assoc,
      ← List.append_assoc]

theorem flat?_foldl_joined (fill spaced : Bool) (m : Doc) (ms : List Doc) :
    (ms.foldl (Composition.beside spaced).node m).flat? =
      (grouped fill spaced (m :: ms)).flat? := by
  induction ms generalizing m with
  | nil => cases h : m.flat? <;> simp [flat?, flatSum?, h]
  | cons d ds ih =>
    rw [List.foldl_cons, ih]
    ext w
    simp only [flat?_grouped_iff, flatSum?_cons_iff, Composition.node, flat?_joined_iff,
      List.length_cons, Nat.mul_succ]
    constructor
    · rintro ⟨_, b, ⟨x, y, hx, hy, rfl⟩, hb, rfl⟩
      exact ⟨x, y + b, hx, ⟨y, b, hy, hb, rfl⟩, by omega⟩
    · rintro ⟨x, _, hx, ⟨y, b, hy, hb, rfl⟩, rfl⟩
      exact ⟨x + gap spaced + y, b, ⟨x, y, hx, hy, rfl⟩, hb, by omega⟩

/-! ### Columns -/

/-- Documents below each other look ahead to what follows them as the members of a broken group
do. -/
theorem lay_foldl_stacked (limits : Limits) (follow : Nat) (indent : Int) (m : Doc)
    (ms : List Doc) (c : Cursor) :
    (ms.foldl (Composition.stack true).node m).lay limits follow indent .broken c =
      (m.lay limits (followLast follow ms) indent .broken c).andThen
        (layBelow limits follow indent ms) := by
  induction ms generalizing m with
  | nil => exact (Laid.andThen_silent _).symm
  | cons d ds ih =>
    rw [List.foldl_cons, ih, Composition.node, Doc.lay, Laid.andThen_assoc]
    apply Laid.andThen_congr
    rw [layBelow, Laid.andThen_assoc]

/-! ### Groups -/

/-- A group alone is the row of its members if that has room, and otherwise their column. -/
theorem chunks_grouped (style : Style) (spaced : Bool) (m : Doc) (ms : List Doc) :
    (grouped false spaced (m :: ms)).chunks style =
      if (grouped false spaced (m :: ms)).flat?.any (style.hasRoom m.lead) then
        (ms.foldl (Composition.beside spaced).node m).chunks style
      else (ms.foldl (Composition.stack true).node m).chunks style := by
  have hlead : ∀ op : Composition, Cursor.start style.discipline (ms.foldl op.node m) =
      .start style.discipline (grouped false spaced (m :: ms)) := by
    intro op
    rw [Cursor.start, Cursor.start, op.lead_foldl_node, lead]
  have hroom :
      ∀ w, (Cursor.start style.discipline (grouped false spaced (m :: ms))).fits
      style.limits (w + 0) =
      style.hasRoom m.lead w := fun w => start_fits_eq_hasRoom style _ w
  by_cases hflat : (grouped false spaced (m :: ms)).flat?.any (style.hasRoom m.lead)
  · obtain ⟨w, hw, hfits⟩ := (Option.any_eq_true _ _).mp hflat
    rw [← hroom] at hfits
    have hrow : (ms.foldl (Composition.beside spaced).node m).flat? = some w := by
      rw [flat?_foldl_joined false, hw]
    rw [if_pos hflat, chunks_of_fits hw hfits, chunks_of_fits hrow (by rwa [hlead]), hlead,
      row_foldl_joined false]
  · rw [if_neg hflat, chunks_eq_lay, chunks_eq_lay, hlead, lay_foldl_stacked, Doc.lay, if_neg]
    · rfl
    · simpa only [hroom, reduceCtorEq, decide_false, Bool.false_or] using hflat

/-- The same of the combinators, which leave out empty documents and make no group of one. -/
theorem chunks_group (style : Style) (spaced : Bool) (ds : List Doc) :
    (group false spaced ds).chunks style =
      (if (group false spaced ds).flat?.any (style.hasRoom (group false spaced ds).lead) then
        ds.foldl (Composition.beside spaced).apply .empty
      else ds.foldl (Composition.stack true).apply .empty).chunks style := by
  have hfull : ∀ d ∈ ds.filter fun d => !d.isEmpty, d.isEmpty = false := by simp
  rw [(Composition.beside spaced).foldl_apply_filter, (Composition.stack true).foldl_apply_filter]
  unfold group
  generalize ds.filter (fun d => !d.isEmpty) = members at hfull
  rcases members with _ | ⟨m, _ | ⟨n, ms⟩⟩
  · simp
  · simp
  · obtain ⟨hm, hms⟩ := List.forall_mem_cons.mp hfull
    have hnode : ∀ op : Composition, (m :: n :: ms).foldl op.apply .empty =
        (n :: ms).foldl op.node m := fun op => by
      rw [List.foldl_cons, op.empty_apply, op.foldl_apply_eq_node hm hms]
    rw [hnode, hnode, apply_ite (chunks style)]
    exact chunks_grouped style spaced m (n :: ms)

/-! ### How far rows and columns reach -/

/-- What documents take beside each other, each aligned with the column where it starts. -/
def room (ds : List Doc) : Nat := (ds.map fun d => d.extent + d.shift + 1).sum

theorem extent_apply_le (op : Composition) (d e : Doc) :
    (op.apply d e).extent ≤ d.extent + (e.extent + e.shift + 1) := by
  cases op with
  | beside spaced =>
    have hgap : gap spaced ≤ 1 := by cases spaced <;> simp [gap]
    simp only [Composition.apply, beside]
    split_ifs
    · omega
    · omega
    · simp only [extent, shift, span]
      omega
  | stack overlap =>
    simp only [Composition.apply, stack]
    split_ifs
    · omega
    · omega
    · simp only [extent, shift, span]
      omega

theorem extent_foldl_apply_le (op : Composition) (d : Doc) (ds : List Doc) :
    (ds.foldl op.apply d).extent ≤ d.extent + room ds := by
  induction ds generalizing d with
  | nil => exact Nat.le_refl _
  | cons e ds ih =>
    have hfold := ih (op.apply d e)
    have happly := extent_apply_le op d e
    simp only [List.foldl_cons, room, List.map_cons, List.sum_cons] at hfold ⊢
    omega

theorem shifts_add_spans_le (ds : List Doc) : shifts ds + spans ds ≤ room ds := by
  induction ds with
  | nil => exact Nat.le_refl _
  | cons d ds ih =>
    simp only [shifts, spans, room, extent, List.map_cons, List.sum_cons] at ih ⊢
    omega

theorem room_filter_le (p : Doc → Bool) (ds : List Doc) : room (ds.filter p) ≤ room ds :=
  (List.filter_sublist.map _).sum_le_sum (by simp)

theorem extent_group_le (fill spaced : Bool) (ds : List Doc) :
    (group fill spaced ds).extent ≤ room ds := by
  refine Nat.le_trans ?_ (room_filter_le (fun d => !d.isEmpty) ds)
  unfold group
  split
  · exact Nat.zero_le _
  · next d h =>
    rw [h]
    simp only [room, List.map_cons, List.map_nil, List.sum_cons]
    omega
  · exact shifts_add_spans_le _

end Doc

/-- What a renderer hands out for a group is the row of the members or their column. -/
theorem Renderer.chunks_group {ds : List Doc} (hds : room ds < 2 ^ 63) {style : Style}
    (hstyle : style.Covers (room ds)) (spaced : Bool) :
    (Renderer.start style (group false spaced ds)).chunks =
      (Renderer.start style
        (if (group false spaced ds).sizes.flat.any fun w =>
            style.hasRoom (group false spaced ds).sizes.lead.toInt w.toNat then
          ds.foldl (Composition.beside spaced).apply .empty
        else ds.foldl (Composition.stack true).apply .empty)).chunks := by
  have hsame : ∀ {d : Doc}, d.extent ≤ room ds → (Renderer.start style d).chunks = d.chunks style :=
    fun h =>
    Renderer.chunks_eq_chunks (Nat.lt_of_le_of_lt h hds) (hstyle.mono h)
  have hfold : ∀ op : Composition, (ds.foldl op.apply .empty).extent ≤ room ds := fun op => by
    simpa [extent, shift, span] using extent_foldl_apply_le op .empty ds
  have hextent := extent_group_le false spaced ds
  have hfit := sizes_fit (Nat.lt_of_le_of_lt hextent hds)
  rw [hsame hextent, hsame (by split <;> exact hfold _), Doc.chunks_group, hfit.lead,
    hfit.any_flat (style.hasRoom (group false spaced ds).lead)]

end Offside
