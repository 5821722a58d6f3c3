import Offside.Proofs.Occurrence

/-!
# Documents that no page can tell apart

Two documents are equivalent if every page shows the same pieces wherever they are placed. A layout
asks a document for its measures and lays it out, and nothing else, so documents with the same
measures and the same layout are equivalent. Compositions in one direction associate: both ways of
bracketing put the same parts behind each other.
-/
namespace Offside

open Doc

namespace Doc

/-- The documents have the same measures and the same layout, on one line only if they can stand on
one. -/
structure Alike (d e : Doc) : Prop where
  isEmpty : d.isEmpty = e.isEmpty
  flat? : d.flat? = e.flat?
  lead : d.lead = e.lead
  breaks : d.breaks = e.breaks
  first : d.first = e.first
  lay : ∀ (limits : Limits) (follow : Nat) (indent : Int) (fit : Fit) (c : Cursor),
    (fit = .flat → ∃ w, d.flat? = some w) → d.lay limits follow indent fit c =
    e.lay limits follow indent fit c

namespace Alike

variable {d e l r u l' r' u' : Doc}

theorem refl (d : Doc) : d.Alike d := ⟨rfl, rfl, rfl, rfl, rfl, fun _ _ _ _ _ _ => rfl⟩

theorem ahead (h : d.Alike e) (fit : Fit) (follow : Nat) :
    d.ahead fit follow = e.ahead fit follow := by
  simp only [Doc.ahead, h.flat?, h.breaks, h.first]

theorem layBroken (h : d.Alike e) (limits : Limits) (follow : Nat) (indent : Int) (c : Cursor) :
    d.lay limits follow indent .broken c = e.lay limits follow indent .broken c := by
  apply h.lay
  simp

theorem below (h : d.Alike e) (discipline : Discipline) (indent : Int)
    (overlap : Bool) (c : Cursor) :
    c.below discipline indent overlap d = c.below discipline indent overlap e := by
  rw [Cursor.below, Cursor.below, h.lead]

theorem nested (h : d.Alike e) (k : Int) : (Doc.nested k d).Alike (.nested k e) where
  isEmpty := rfl
  flat? := h.flat?
  lead := by rw [Doc.lead, Doc.lead, h.lead]
  breaks := h.breaks
  first := h.first
  lay limits follow indent fit c hflat := by
    rw [Doc.lay, Doc.lay]
    exact h.lay _ _ _ _ _ hflat

theorem joined (hl : l.Alike l') (spaced : Bool) (hr : r.Alike r') :
    (Doc.joined l spaced r).Alike (.joined l' spaced r') where
  isEmpty := rfl
  flat? := by rw [Doc.flat?, Doc.flat?, hl.flat?, hr.flat?]
  lead := hl.lead
  breaks := by rw [Doc.breaks, Doc.breaks, hl.breaks, hr.breaks]
  first := by simp only [Doc.first, hl.breaks, hl.first, hr.first]
  lay limits follow indent fit c hflat := by
    have hsides : fit = .flat → (∃ w, l.flat? = some w) ∧ ∃ w, r.flat? = some w := by
      intro hfit
      obtain ⟨w, hw⟩ := hflat hfit
      obtain ⟨a, b, ha, hb, -⟩ := flat?_joined_iff.mp hw
      exact ⟨⟨a, ha⟩, b, hb⟩
    rw [Doc.lay, Doc.lay, hr.ahead, hl.lay _ _ _ _ _ fun h => (hsides h).1]
    apply Laid.andThen_congr
    dsimp only
    rw [hr.lead]
    exact hr.lay _ _ _ _ _ fun h => (hsides h).2

theorem stacked (hu : u.Alike u') (overlap : Bool) (hl : l.Alike l') :
    (Doc.stacked u overlap l).Alike (.stacked u' overlap l') where
  isEmpty := rfl
  flat? := rfl
  lead := hu.lead
  breaks := rfl
  first := hu.first
  lay limits follow indent fit c _ := by
    rw [Doc.lay, Doc.lay, hu.layBroken]
    apply Laid.andThen_congr
    rw [hl.below]
    exact Laid.andThen_congr (hl.layBroken _ _ _ _)

end Alike

/-! ### Groups -/

section

variable {ds es : List Doc} (h : List.Forall₂ Alike ds es)
include h

theorem Alike.flatSum? : Doc.flatSum? ds = Doc.flatSum? es := by
  induction h with
  | nil => rfl
  | cons hd _ ih => rw [Doc.flatSum?, Doc.flatSum?, hd.flat?, ih]

theorem Alike.followLast (follow : Nat) : followLast follow ds = followLast follow es := by
  cases h with
  | nil => rfl
  | cons => rfl

theorem Alike.aheadAll (spaced : Bool) (follow : Nat) :
    aheadAll spaced follow ds = aheadAll spaced follow es := by
  induction h with
  | nil => rfl
  | cons hd _ ih => rw [Offside.aheadAll, Offside.aheadAll, hd.ahead, ih]

theorem Alike.layFlat (limits : Limits) (follow : Nat) (spaced : Bool) (c : Cursor) {w : Nat}
    (hw : Doc.flatSum? ds = some w) :
    layFlat limits follow spaced ds c = layFlat limits follow spaced es c := by
  induction h generalizing c w with
  | nil => rfl
  | cons hd hds ih =>
    obtain ⟨a, b, ha, hb, -⟩ := flatSum?_cons_iff.mp hw
    rw [Offside.layFlat, Offside.layFlat, Alike.aheadAll hds, hd.lay _ _ _ _ _ fun _ => ⟨a, ha⟩]
    exact Laid.andThen_congr (ih _ hb)

theorem Alike.layBelow (limits : Limits) (follow : Nat) (indent : Int) (c : Cursor) :
    layBelow limits follow indent ds c = layBelow limits follow indent es c := by
  induction h generalizing c with
  | nil => rfl
  | cons hd hds ih =>
    rw [Offside.layBelow, Offside.layBelow, hd.below, Alike.followLast hds]
    apply Laid.andThen_congr
    rw [hd.layBroken]
    exact Laid.andThen_congr (ih _)

theorem Alike.layFill (limits : Limits) (follow : Nat) (indent : Int) (spaced : Bool)
    (startLine : Nat) (c : Cursor) :
    layFill limits follow indent spaced startLine ds c =
      layFill limits follow indent spaced startLine es c := by
  induction h generalizing c startLine with
  | nil => rfl
  | @cons d e ds es hd hds ih =>
    have hjoins : joinsAt limits follow spaced startLine d ds c =
        joinsAt limits follow spaced startLine e es c := by
      rw [joinsAt, joinsAt, hd.flat?, Alike.followLast hds]
    rw [Offside.layFill, Offside.layFill, hjoins, Alike.followLast hds]
    by_cases hjoin : joinsAt limits follow spaced startLine e es c
    · have hflat : ∃ w, d.flat? = some w := by
        rw [joinsAt, Bool.and_eq_true] at hjoin
        obtain ⟨w, hw, -⟩ := (Option.any_eq_true _ _).mp hjoin.2
        exact ⟨w, by rw [hd.flat?, hw]⟩
      rw [if_pos hjoin, if_pos hjoin, hd.lay _ _ _ _ _ fun _ => hflat]
      exact Laid.andThen_congr (ih _ _)
    · rw [if_neg hjoin, if_neg hjoin, hd.below]
      apply Laid.andThen_congr
      rw [hd.layBroken]
      exact Laid.andThen_congr (ih _ _)

theorem Alike.grouped (fill spaced : Bool) :
    (Doc.grouped fill spaced ds).Alike (.grouped fill spaced es) := by
  have hflat : (Doc.grouped fill spaced ds).flat? = (Doc.grouped fill spaced es).flat? := by
    rw [Doc.flat?, Doc.flat?, Alike.flatSum? h, h.length_eq]
  cases h with
  | nil => exact .refl _
  | @cons d e ds es hd hds =>
    refine ⟨rfl, hflat, hd.lead, rfl, hd.first, fun limits follow indent fit c hfit => ?_⟩
    rw [Doc.lay, Doc.lay, ← hflat]
    by_cases hline : decide (fit = .flat) || (Doc.grouped fill spaced (d :: ds)).flat?.any fun w =>
      c.fits limits (w + follow)
    · obtain ⟨w, hw, -⟩ := flat_choice hfit hline
      obtain ⟨b, hb, -⟩ := Option.map_eq_some_iff.mp hw
      obtain ⟨a, b, ha, hb, -⟩ := flatSum?_cons_iff.mp hb
      rw [if_pos hline, if_pos hline, Alike.aheadAll hds, hd.lay _ _ _ _ _ fun _ => ⟨a, ha⟩]
      exact Laid.andThen_congr (Alike.layFlat hds _ _ _ _ hb)
    · rw [if_neg hline, if_neg hline, Alike.followLast hds, hd.layBroken]
      apply Laid.andThen_congr
      rw [Alike.layFill hds, Alike.layBelow hds]

/-- The same documents are left out of a group on both sides. -/
theorem Alike.filter :
    List.Forall₂ Alike (ds.filter fun d => !d.isEmpty) (es.filter fun d => !d.isEmpty) := by
  induction h with
  | nil => exact .nil
  | @cons d e ds es hd _ ih =>
    rw [List.filter_cons, List.filter_cons, hd.isEmpty]
    by_cases he : e.isEmpty
    · simpa [he] using ih
    · simpa [he] using ⟨hd, ih⟩

theorem Alike.group (fill spaced : Bool) : (group fill spaced ds).Alike (group fill spaced es) := by
  have hmembers := Alike.filter h
  unfold Doc.group
  generalize (ds.filter fun d => !d.isEmpty) = ds at hmembers
  generalize (es.filter fun d => !d.isEmpty) = es at hmembers
  match hmembers with
  | .nil => exact .refl _
  | .cons hd .nil => exact hd
  | .cons hd (.cons he hrest) => exact .grouped (.cons hd (.cons he hrest)) fill spaced

end

namespace Alike

variable {d e l r u l' r' u' : Doc}

theorem nest (h : d.Alike e) (k : Int) : (d.nest k).Alike (e.nest k) := by
  unfold Doc.nest
  rw [h.isEmpty]
  by_cases hk : (e.isEmpty || k == 0) = true
  · rw [if_pos hk, if_pos hk]
    exact h
  · rw [if_neg hk, if_neg hk]
    exact h.nested k

theorem beside (hl : l.Alike l') (spaced : Bool) (hr : r.Alike r') :
    (l.beside spaced r).Alike (l'.beside spaced r') := by
  unfold Doc.beside
  rw [hl.isEmpty, hr.isEmpty]
  by_cases hleft : l'.isEmpty
  · rwa [if_pos hleft, if_pos hleft]
  · by_cases hright : r'.isEmpty
    · rwa [if_neg hleft, if_neg hleft, if_pos hright, if_pos hright]
    · rw [if_neg hleft, if_neg hleft, if_neg hright, if_neg hright]
      exact hl.joined spaced hr

theorem stack (hu : u.Alike u') (overlap : Bool) (hl : l.Alike l') :
    (u.stack overlap l).Alike (u'.stack overlap l') := by
  unfold Doc.stack
  rw [hu.isEmpty, hl.isEmpty]
  by_cases hupper : u'.isEmpty
  · rwa [if_pos hupper, if_pos hupper]
  · by_cases hlower : l'.isEmpty
    · rwa [if_neg hupper, if_neg hupper, if_pos hlower, if_pos hlower]
    · rw [if_neg hupper, if_neg hupper, if_neg hlower, if_neg hlower]
      exact hu.stacked overlap hl

theorem chunks (h : d.Alike e) (style : Style) : d.chunks style = e.chunks style := by
  have hstart : Cursor.start style.discipline d = Cursor.start style.discipline e := by
    rw [Cursor.start, Cursor.start, h.lead]
  rw [chunks_eq_lay, chunks_eq_lay, hstart, h.layBroken]

end Alike

end Doc

/-! ### Surroundings -/

/-- A document with places left open for another one, as a function of what is placed there. -/
inductive Surrounding : (Doc → Doc) → Prop where
  | place : Surrounding fun d => d
  | fixed (e : Doc) : Surrounding fun _ => e
  | nest {f : Doc → Doc} (k : Int) : Surrounding f → Surrounding fun d => (f d).nest k
  | beside {f g : Doc → Doc} (spaced : Bool) : Surrounding f → Surrounding g → Surrounding fun d =>
    (f d).beside spaced (g d)
  | stack {f g : Doc → Doc} (overlap : Bool) : Surrounding f → Surrounding g → Surrounding fun d =>
    (f d).stack overlap (g d)
  | group {fs : List (Doc → Doc)} (fill spaced : Bool) :
      (∀ f ∈ fs, Surrounding f) → Surrounding fun d => group fill spaced (fs.map fun f => f d)

/-- In every surrounding the documents are written as the same pieces, in every style. -/
def Doc.Equivalent (d e : Doc) : Prop :=
  ∀ f, Surrounding f → ∀ style : Style, (f d).chunks style = (f e).chunks style

theorem Surrounding.alike {f : Doc → Doc} (hf : Surrounding f) {d e : Doc} (h : d.Alike e) :
    (f d).Alike (f e) := by
  induction hf with
  | place => exact h
  | fixed e => exact .refl e
  | nest k _ ih => exact ih.nest k
  | beside spaced _ _ ihf ihg => exact ihf.beside spaced ihg
  | stack overlap _ _ ihf ihg => exact ihf.stack overlap ihg
  | @group fs fill spaced _ ih =>
    apply Alike.group
    rw [List.forall₂_map_left_iff, List.forall₂_map_right_iff, List.forall₂_same]
    exact ih

theorem Doc.Alike.equivalent {d e : Doc} (h : d.Alike e) : d.Equivalent e :=
  fun _ hf style => (hf.alike h).chunks style

/-! ### Associativity -/

namespace Doc

/-- What stands behind the first document is the same for both brackets, also for a look ahead. -/
theorem Alike.joined_assoc (a : Doc) (s : Bool) (b : Doc) (t : Bool) (c : Doc) :
    (Doc.joined (.joined a s b) t c).Alike (.joined a s (.joined b t c)) where
  isEmpty := rfl
  flat? := by
    simp only [Doc.flat?]
    cases a.flat? <;> cases b.flat? <;> cases c.flat? <;> simp
    omega
  lead := rfl
  breaks := by simp only [Doc.breaks, Bool.or_assoc]
  first := by
    simp only [Doc.first, Doc.breaks]
    by_cases ha : a.breaks <;> by_cases hb : b.breaks <;> simp [ha, hb]
    omega
  lay limits follow indent fit cursor hflat := by
    have hright : fit = .flat → ∃ w, (Doc.joined b t c).flat? = some w := by
      intro hfit
      obtain ⟨w, hw⟩ := hflat hfit
      obtain ⟨ab, wc, hab, hc, -⟩ := flat?_joined_iff.mp hw
      obtain ⟨wa, wb, -, hb, -⟩ := flat?_joined_iff.mp hab
      exact ⟨_, flat?_joined_iff.mpr ⟨wb, wc, hb, hc, rfl⟩⟩
    rw [Doc.lay, Doc.lay, Doc.lay, ahead_joined hright, Laid.andThen_assoc]
    apply Laid.andThen_congr
    rw [Doc.lay]
    rfl

theorem Alike.stacked_assoc (a : Doc) (s : Bool) (b : Doc) (t : Bool) (c : Doc) :
    (Doc.stacked (.stacked a s b) t c).Alike (.stacked a s (.stacked b t c)) where
  isEmpty := rfl
  flat? := rfl
  lead := rfl
  breaks := rfl
  first := rfl
  lay limits follow indent fit cursor _ := by
    rw [Doc.lay, Doc.lay, Doc.lay, Laid.andThen_assoc]
    apply Laid.andThen_congr
    rw [Laid.andThen_assoc]
    apply Laid.andThen_congr
    rw [Doc.lay]

/-- The ways to put one document after another. -/
inductive Composition where
  /-- Side by side: `appendSpace` if there is a space between, and `append` if not. -/
  | beside (spaced : Bool)
  /-- One above the other: `above` if they may overlap, and `aboveStrict` if not. -/
  | stack (overlap : Bool)
deriving DecidableEq, Repr

namespace Composition

def apply : Composition → Doc → Doc → Doc
  | .beside spaced, l, r => l.beside spaced r
  | .stack overlap, u, l => u.stack overlap l

def isHorizontal : Composition → Bool
  | .beside _ => true
  | .stack _ => false

@[simp] theorem empty_apply (op : Composition) (d : Doc) : op.apply .empty d = d := by
  cases op <;> rfl

@[simp] theorem apply_empty (op : Composition) (d : Doc) : op.apply d .empty = d := by
  cases op <;> cases d <;> rfl

/-- The node that a composition makes of documents that are not empty. -/
def node : Composition → Doc → Doc → Doc
  | .beside spaced, l, r => .joined l spaced r
  | .stack overlap, u, l => .stacked u overlap l

theorem isEmpty_node (op : Composition) (d e : Doc) : (op.node d e).isEmpty = false := by
  cases op <;> rfl

theorem apply_eq_node (op : Composition) {d e : Doc} (hd : d.isEmpty = false)
    (he : e.isEmpty = false) : op.apply d e = op.node d e := by
  cases op with
  | beside spaced => rw [apply, Doc.beside, if_neg (by simp [hd]), if_neg (by simp [he]), node]
  | stack overlap => rw [apply, Doc.stack, if_neg (by simp [hd]), if_neg (by simp [he]), node]

/-- Two compositions of one direction around a document that is not empty. -/
theorem alike_assoc {op other : Composition} (h : op.isHorizontal = other.isHorizontal)
    (a : Doc) {b : Doc} (hb : b.isEmpty = false) (c : Doc) :
    (other.apply (op.apply a b) c).Alike (op.apply a (other.apply b c)) := by
  by_cases ha : a.isEmpty
  · rw [Doc.isEmpty_iff.mp ha, empty_apply, empty_apply]
    exact .refl _
  by_cases hc : c.isEmpty
  · rw [Doc.isEmpty_iff.mp hc, apply_empty, apply_empty]
    exact .refl _
  rw [Bool.not_eq_true] at ha hc
  rw [op.apply_eq_node ha hb, other.apply_eq_node hb hc,
    other.apply_eq_node (op.isEmpty_node a b) hc, op.apply_eq_node ha (other.isEmpty_node b c)]
  cases op with
  | beside spaced =>
    cases other with
    | beside spaced' => exact .joined_assoc a spaced b spaced' c
    | stack overlap => simp [isHorizontal] at h
  | stack overlap =>
    cases other with
    | beside spaced => simp [isHorizontal] at h
    | stack overlap' => exact .stacked_assoc a overlap b overlap' c

end Composition

end Doc

/-- All four compositions associate and have the empty document as their identity. Two different
ones associate if they have the same direction and the document between them is not empty. -/
theorem compositions_associate (op : Composition) (a b c : Doc) :
    (op.apply (op.apply a b) c).Equivalent (op.apply a (op.apply b c)) ∧
      (op.apply .empty a).Equivalent a ∧ (op.apply a .empty).Equivalent a ∧
      ∀ other : Composition, op.isHorizontal = other.isHorizontal → b.isEmpty = false →
        (other.apply (op.apply a b) c).Equivalent (op.apply a (other.apply b c)) := by
  refine ⟨?_, ?_, ?_, fun other h hb => (Composition.alike_assoc h a hb c).equivalent⟩
  · by_cases hb : b.isEmpty
    · rw [Doc.isEmpty_iff.mp hb, Composition.apply_empty, Composition.empty_apply]
      exact (Alike.refl _).equivalent
    · exact (Composition.alike_assoc rfl a (by simpa using hb) c).equivalent
  · rw [Composition.empty_apply]
    exact (Alike.refl a).equivalent
  · rw [Composition.apply_empty]
    exact (Alike.refl a).equivalent

theorem call_with_guard_associates :
    let call := parens (fsep [text "x", text "y"])
    let f (d : Doc) : Doc := hang (text "let") 2 (d.above (text "in"))
    let style : Style := { lineLength := 6 }
    call.isEmpty = false ∧ Surrounding f ∧
      (f ((text "g" ++ call).appendSpace (text "where"))).chunks style =
        (f (text "g" ++ call.appendSpace (text "where"))).chunks style := by
  intro call f style
  have hf : Surrounding f :=
    @Surrounding.group [fun _ => text "let", fun d => (d.above (text "in")).nest 2] false true (by
      simp only [List.forall_mem_cons]
      exact ⟨.fixed _, .nest 2 (.stack true .place (.fixed _)), by simp⟩)
  have hassoc :=
    (compositions_associate (.beside false) (text "g") call (text "where")).2.2.2
      (.beside true) rfl rfl
  exact ⟨rfl, hf, hassoc f hf style⟩

end Offside
