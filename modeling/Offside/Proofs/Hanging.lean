import Offside.Proofs.Occurrence
import Offside.Proofs.Words

/-!
# Documents that hang from their first text

What the combinators of the offside layout keep. A document is headed if it starts with a text at
its own indentation; with a bound of one it keeps all its other lines right of that text. The parts
that come after a head need less: flush documents may start lines at their own column, inset ones
only right of it, and a settled one only where it starts.
-/
namespace Offside

namespace Doc

/-- No leaf holds a line break. -/
def Plain (d : Doc) : Prop := ∀ s ∈ d.leaves, '\n' ∉ s.toList

/-- The document starts with a text, and its other lines start at least `k` columns right of it. -/
structure Headed (k : Int) (d : Doc) : Prop where
  lead : d.lead = 0
  text : d.startsWithText = true
  clears : d.Clears k
  plain : d.Plain

/-- No line of the document starts left of its indentation. -/
structure Flush (d : Doc) : Prop where
  lead : d.lead = 0
  clears : d.Clears 0
  plain : d.Plain

/-- No line of the document starts left of the column where it starts itself. -/
structure Settled (d : Doc) : Prop where
  clears : d.Clears d.lead
  plain : d.Plain

/-- All lines of the document start right of its indentation, if there are any. -/
structure Inset (d : Doc) : Prop where
  clears : d = .empty ∨ 1 ≤ d.lead ∧ d.Clears 1
  plain : d.Plain

theorem leavesAll_eq (ds : List Doc) : leavesAll ds = ds.flatMap leaves := by
  induction ds with
  | nil => rfl
  | cons d ds ih => rw [leavesAll, ih, List.flatMap_cons]

/-- A group is nothing, its only member, or a node with members from the list. -/
theorem group_cases (fill spaced : Bool) (ds : List Doc) :
    group fill spaced ds = .empty ∨ group fill spaced ds ∈ ds ∨
      ∃ m ms, group fill spaced ds = .grouped fill spaced (m :: ms) ∧ m ∈ ds ∧
        ∀ e ∈ ms, e ∈ ds := by
  have hmem : ∀ d ∈ ds.filter fun d => !d.isEmpty, d ∈ ds := fun d hd => (List.mem_filter.mp hd).1
  unfold group
  generalize (ds.filter fun d => !d.isEmpty) = members at hmem ⊢
  match members, hmem with
  | [], _ => exact .inl rfl
  | [d], hmem => exact .inr (.inl (hmem d (by simp)))
  | m :: n :: ms, hmem =>
    obtain ⟨hm, hms⟩ := List.forall_mem_cons.mp hmem
    exact .inr (.inr ⟨m, n :: ms, rfl, hm, hms⟩)

namespace Plain

theorem empty : Plain .empty := by simp [Plain, leaves]

theorem beside {l r : Doc} (hl : l.Plain) (hr : r.Plain) (spaced : Bool) :
    (l.beside spaced r).Plain := by
  unfold Doc.beside
  split_ifs
  · exact hr
  · exact hl
  · exact List.forall_mem_append.mpr ⟨hl, hr⟩

theorem stack {u l : Doc} (hu : u.Plain) (hl : l.Plain) (overlap : Bool) :
    (u.stack overlap l).Plain := by
  unfold Doc.stack
  split_ifs
  · exact hl
  · exact hu
  · exact List.forall_mem_append.mpr ⟨hu, hl⟩

theorem nest {d : Doc} (hd : d.Plain) (k : Int) : (d.nest k).Plain := by
  unfold Doc.nest
  split_ifs
  · exact hd
  · exact hd

theorem group {ds : List Doc} (hds : ∀ d ∈ ds, d.Plain) (fill spaced : Bool) :
    (group fill spaced ds).Plain := by
  rcases group_cases fill spaced ds with h | h | ⟨m, ms, h, hm, hms⟩
  · rw [h]
    exact empty
  · exact hds _ h
  · rw [h]
    intro s hs
    rw [leaves, leavesAll_eq, List.flatMap_cons, List.mem_append, List.mem_flatMap] at hs
    rcases hs with hs | ⟨e, he, hs⟩
    · exact hds m hm s hs
    · exact hds e (hms e he) s hs

theorem of_mem_chunks {d : Doc} (hd : d.Plain) (style : Style) {s : String}
    (hs : .text s ∈ d.chunks style) : '\n' ∉ s.toList := by
  have htext : .text s ∈ (d.chunks style).filter Chunk.isText := List.mem_filter.mpr ⟨hs, rfl⟩
  rw [Chunk.filter_isText, texts_chunks] at htext
  obtain ⟨w, hw, heq⟩ := List.mem_map.mp htext
  cases heq
  exact hd s (List.mem_filter.mp hw).1

end Plain

theorem ne_empty_of_startsWithText {d : Doc} (h : d.startsWithText = true) : d ≠ .empty := by
  rintro rfl
  simp [startsWithText] at h

namespace Flush

variable {d u l : Doc} {ds : List Doc}

theorem settled (h : d.Flush) : d.Settled := ⟨h.lead ▸ h.clears, h.plain⟩

theorem empty : Flush .empty := ⟨rfl, trivial, .empty⟩

theorem ofText {s : String} (hs : '\n' ∉ s.toList) : Flush (.text s) :=
  ⟨rfl, trivial, by simpa [Plain, leaves] using hs⟩

theorem above (hu : u.Flush) (hl : l.Flush) : (u.above l).Flush := by
  refine ⟨?_, ?_, hu.plain.stack hl.plain true⟩ <;> rw [Doc.above, stack] <;> split_ifs
  · exact hl.lead
  · exact hu.lead
  · exact hu.lead
  · exact hl.clears
  · exact hu.clears
  · exact ⟨hu.clears, hl.lead ▸ Int.le_refl _, hl.clears⟩

theorem vcat (hds : ∀ d ∈ ds, d.Flush) : (vcat ds).Flush := by
  have hfold : ∀ d : Doc, d.Flush → (ds.foldl Doc.above d).Flush := by
    induction ds with
    | nil => exact fun d hd => hd
    | cons e ds ih =>
      obtain ⟨he, hds⟩ := List.forall_mem_cons.mp hds
      exact fun d hd => ih hds _ (hd.above he)
  exact hfold _ empty

theorem group (hds : ∀ d ∈ ds, d.Flush) (fill spaced : Bool) : (group fill spaced ds).Flush := by
  have hplain := Plain.group (fun d hd => (hds d hd).plain) fill spaced
  rcases group_cases fill spaced ds with h | h | ⟨m, ms, h, hm, hms⟩
  · rw [h]
    exact empty
  · exact hds _ h
  · rw [h] at hplain ⊢
    refine ⟨(hds m hm).lead, ?_, hplain⟩
    rw [clears_grouped_cons]
    refine ⟨(hds m hm).clears, fun e he => ?_⟩
    have hflush := hds e (hms e he)
    exact ⟨Int.le_of_eq hflush.lead.symm, hflush.clears⟩

end Flush

namespace Headed

variable {d l r : Doc} {ds : List Doc} {j k : Int}

theorem mono (h : d.Headed k) (hjk : j ≤ k) : d.Headed j :=
  ⟨h.lead, h.text, h.clears.mono hjk, h.plain⟩

theorem flush_of_nonneg (h : d.Headed k) (hk : 0 ≤ k) : d.Flush :=
  ⟨h.lead, h.clears.mono hk, h.plain⟩

theorem flush (h : d.Headed 1) : d.Flush := h.flush_of_nonneg (by decide)

theorem settled (h : d.Headed 1) : d.Settled := h.flush.settled

theorem ne_empty (h : d.Headed k) : d ≠ .empty := ne_empty_of_startsWithText h.text

theorem ofText {s : String} (hs : IsWord s) : Headed k (.text s) :=
  ⟨rfl, by simpa [startsWithText] using hs.1, trivial, by simpa [Plain, leaves] using hs.2⟩

theorem beside (hl : l.Headed k) (hk : k ≤ 1) (hr : r.Settled) (spaced : Bool) :
    (l.beside spaced r).Headed k := by
  have hplain := hl.plain.beside hr.plain spaced
  unfold Doc.beside at hplain ⊢
  rw [if_neg (by simp [isEmpty_of_ne hl.ne_empty])] at hplain ⊢
  split_ifs at hplain ⊢
  · exact hl
  · exact ⟨hl.lead, hl.text, ⟨hl.clears, hl.text, by rw [hl.lead]; omega, hr.clears⟩, hplain⟩

theorem textBeside {s : String} (hs : IsWord s) (spaced : Bool) (hr : r.Settled) :
    ((Doc.text s).beside spaced r).Headed 1 :=
  beside (ofText hs) (Int.le_refl 1) hr spaced

theorem besideText (hl : l.Headed k) (hk : k ≤ 1) (spaced : Bool) {s : String}
    (hs : '\n' ∉ s.toList) : (l.beside spaced (.text s)).Headed k :=
  hl.beside hk (Flush.ofText hs).settled spaced

theorem above (hl : l.Headed 0) (hr : r.Flush) : (l.above r).Headed 0 := by
  have hflush := (hl.flush_of_nonneg (Int.le_refl 0)).above hr
  refine ⟨hflush.lead, ?_, hflush.clears, hflush.plain⟩
  rw [Doc.above, stack, if_neg (by simp [isEmpty_of_ne hl.ne_empty])]
  split_ifs
  · exact hl.text
  · exact hl.text

/-- A headed document above one that stands further right. -/
theorem aboveInset (hl : l.Headed 1) (hr : r.Inset) : (l.above r).Headed 1 := by
  have hplain := hl.plain.stack hr.plain true
  unfold Doc.above Doc.stack at *
  rw [if_neg (by simp [isEmpty_of_ne hl.ne_empty])] at hplain ⊢
  split_ifs at hplain ⊢ with h
  · exact hl
  · obtain hempty | ⟨hlead, hclears⟩ := hr.clears
    · exact absurd (isEmpty_iff.mpr hempty) h
    · exact ⟨hl.lead, hl.text, ⟨hl.clears, hlead, hclears⟩, hplain⟩

theorem parens (hd : d.Settled) : d.parens.Headed 1 :=
  besideText (textBeside (by decide) false hd) (Int.le_refl 1) false (by decide)

theorem brackets (hd : d.Settled) : d.brackets.Headed 1 :=
  besideText (textBeside (by decide) false hd) (Int.le_refl 1) false (by decide)

theorem braces (hd : d.Settled) : d.braces.Headed 1 :=
  besideText (textBeside (by decide) false hd) (Int.le_refl 1) false (by decide)

theorem parensIf (b : Bool) (hd : d.Headed 1) : (parensIf b d).Headed 1 := by
  cases b with
  | false => exact hd
  | true => exact parens hd.settled

theorem punctuate (hds : ∀ d ∈ ds, d.Headed k) (hk : k ≤ 1) :
    ∀ d ∈ punctuate comma ds, d.Headed k := by
  fun_induction Doc.punctuate comma ds with
  | case1 => exact hds
  | case2 d => exact hds
  | case3 d ds _ ih =>
    obtain ⟨hd, hds⟩ := List.forall_mem_cons.mp hds
    refine List.forall_mem_cons.mpr ⟨?_, ih hds⟩
    exact hd.besideText hk false (by decide)

theorem punctuate_ne_nil (hne : ds ≠ []) (separator : Doc) : Doc.punctuate separator ds ≠ [] := by
  fun_cases Doc.punctuate separator ds with
  | case1 => exact hne
  | case2 => simp
  | case3 => simp

theorem vcat (hd : d.Headed 0) (hds : ∀ e ∈ ds, e.Flush) : (vcat (d :: ds)).Headed 0 := by
  have hfold : ∀ f : Doc, f.Headed 0 → (ds.foldl Doc.above f).Headed 0 := by
    induction ds with
    | nil => exact fun f hf => hf
    | cons e ds ih =>
      obtain ⟨he, hds⟩ := List.forall_mem_cons.mp hds
      exact fun f hf => ih hds _ (hf.above he)
  exact hfold _ hd

end Headed

/-- A document that is not empty stays the first member of its group. -/
theorem group_cons {d : Doc} (hd : d ≠ .empty) (fill spaced : Bool) (ds : List Doc) :
    (ds.filter (fun d => !d.isEmpty) = [] ∧ group fill spaced (d :: ds) = d) ∨
      group fill spaced (d :: ds) = .grouped fill spaced (d :: ds.filter fun d => !d.isEmpty) := by
  unfold group
  rw [List.filter_cons_of_pos (by simp [isEmpty_of_ne hd])]
  generalize (ds.filter fun d => !d.isEmpty) = members
  cases members with
  | nil => exact .inl ⟨rfl, rfl⟩
  | cons e es => exact .inr rfl

end Doc

open Doc

/-- Blocks are kept apart by indentation alone, and every kind of block is indented: no indent is 0,
nor is it so large that it leads to the left. -/
structure Mode.Indented (m : Mode) : Prop where
  offside : m.layout = .offside
  classIndent : 1 ≤ columns m.classIndent
  doIndent : 1 ≤ columns m.doIndent
  caseIndent : 1 ≤ columns m.caseIndent
  letIndent : 1 ≤ columns m.letIndent
  whereIndent : 1 ≤ columns m.whereIndent
  onsideIndent : 1 ≤ columns m.onsideIndent

namespace Mode.Indented

variable {m : Mode} {d u l : Doc} {ds : List Doc}

theorem isVertical (hm : m.Indented) : m.isVertical = true := isVertical_of_offside hm.offside

/-- The later lines of a group go right by as much as its first member goes back. -/
theorem headed_onside {k : Int} (hk : 1 ≤ k) (hd : d.Headed 1) (hds : ∀ e ∈ ds, e.Flush) :
    (nest k (fsep (nest (-k) d :: ds))).Headed 1 := by
  have hback : (nested (-k) d).Plain := hd.plain
  have hplain :=
    Plain.group (List.forall_mem_cons.mpr ⟨hback, fun e he => (hds e he).plain⟩) true true
  have hshift : ∀ e : Doc, e ≠ .empty → nest k e = .nested k e :=
    fun e he => nest_of_ne he (by omega)
  rw [nest_of_ne hd.ne_empty (by omega), fsep]
  rcases group_cons (d := nested (-k) d) (by simp) true true ds with ⟨-, h⟩ | h
  · rw [h] at hplain ⊢
    rw [hshift (nested _ _) (by simp)]
    refine ⟨?_, hd.text, ?_, hplain⟩
    · rw [lead, lead, hd.lead]
      omega
    · rw [Clears, Clears]
      exact hd.clears.mono (by omega)
  · rw [h] at hplain ⊢
    rw [hshift (grouped _ _ _) (by simp)]
    refine ⟨?_, hd.text, ?_, hplain⟩
    · rw [lead, lead, lead, hd.lead]
      omega
    · rw [Clears, clears_grouped_cons, Clears]
      refine ⟨hd.clears.mono (by omega), fun e he => ?_⟩
      have hflush := hds e (List.mem_filter.mp he).1
      exact ⟨by rw [hflush.lead]; omega, hflush.clears.mono (by omega)⟩

theorem headed_fillOnside (hm : m.Indented) (hd : d.Headed 1) (hds : ∀ e ∈ ds, e.Flush) :
    (m.fillOnside (d :: ds)).Headed 1 := by
  rw [fillOnside, if_pos hm.isVertical,
    List.filter_cons_of_pos (by simp [isEmpty_of_ne hd.ne_empty])]
  exact headed_onside hm.onsideIndent hd fun e he => hds e (List.mem_filter.mp he).1

theorem fillOnside_empty (hm : m.Indented) (ds : List Doc) :
    m.fillOnside (.empty :: ds) = m.fillOnside ds := by
  rw [fillOnside, fillOnside, if_pos hm.isVertical, if_pos hm.isVertical,
    List.filter_cons_of_neg (by simp [isEmpty])]

theorem headed_sepFirst (hm : m.Indented) (hd : d.Headed 1) (hds : ∀ e ∈ ds, e.Flush) :
    (m.sepFirst (d :: ds)).Headed 1 := by
  rw [sepFirst, if_pos hm.isVertical, List.filter_cons_of_pos (by simp [isEmpty_of_ne hd.ne_empty])]
  refine hd.beside (Int.le_refl 1) (Flush.settled (Flush.group ?_ true true)) true
  exact fun e he => hds e (List.mem_filter.mp he).1

theorem headed_fill (hm : m.Indented) (hds : ∀ e ∈ ds, e.Headed 0) (hne : ds ≠ []) :
    (m.fill ds).Headed 0 := by
  have hflush : (fsep ds).Flush :=
    Flush.group (fun e he => (hds e he).flush_of_nonneg (Int.le_refl 0)) true true
  rw [fill, if_pos hm.isVertical]
  refine ⟨hflush.lead, ?_, hflush.clears, hflush.plain⟩
  cases ds with
  | nil => exact absurd rfl hne
  | cons d ds =>
    have hd := hds d (by simp)
    rw [fsep]
    rcases group_cons hd.ne_empty true true ds with ⟨-, h⟩ | h
    · rw [h]
      exact hd.text
    · rw [h]
      exact hd.text

theorem flush_fill (hm : m.Indented) (hds : ∀ e ∈ ds, e.Flush) : (m.fill ds).Flush := by
  rw [fill, if_pos hm.isVertical]
  exact Flush.group hds true true

theorem headed_parenList (hm : m.Indented) (hds : ∀ e ∈ ds, e.Headed 1) :
    (m.parenList ds).Headed 1 :=
  .parens (hm.flush_fill fun e he => (Headed.punctuate hds (Int.le_refl 1) e he).flush).settled

theorem headed_braceList (hm : m.Indented) (hds : ∀ e ∈ ds, e.Headed 0) :
    (m.braceList ds).Headed 1 :=
  .braces (hm.flush_fill fun e he => (Headed.punctuate hds (by decide) e he).flush_of_nonneg
    (by decide)).settled

theorem headed_bracketList (hm : m.Indented) (hds : ∀ e ∈ ds, e.Flush) :
    (m.bracketList ds).Headed 1 :=
  .brackets (hm.flush_fill hds).settled

theorem headed_aboveOrBeside (hm : m.Indented) (hu : u.Headed 1) (hl : l.Inset) :
    (m.aboveOrBeside u l).Headed 1 := by
  rw [aboveOrBeside, if_pos hm.isVertical]
  exact hu.aboveInset hl

theorem inset_nest {k : Int} (hk : 1 ≤ k) (hd : d.Flush) : (d.nest k).Inset := by
  refine ⟨?_, hd.plain.nest k⟩
  unfold nest
  split_ifs with h
  · have hempty : d = .empty := by
      rcases Bool.or_eq_true_iff.mp h with h | h
      · exact isEmpty_iff.mp h
      · rw [beq_iff_eq] at h
        omega
    exact .inl hempty
  · refine .inr ⟨?_, ?_⟩
    · rw [lead, hd.lead]
      omega
    · rw [Clears]
      exact hd.clears.mono (by omega)

theorem inset_block (hm : m.Indented) {k : Nat} (hk : 1 ≤ columns k) (hds : ∀ e ∈ ds, e.Flush) :
    (m.block k ds).Inset := by
  rw [block, hm.offside]
  exact inset_nest hk (Flush.vcat hds)

theorem settled_block (hm : m.Indented) (k : Nat) (hds : ∀ e ∈ ds, e.Flush) :
    (m.block k ds).Settled := by
  rw [block, hm.offside]
  have hflush := Flush.vcat hds
  refine ⟨?_, hflush.plain.nest _⟩
  dsimp only
  unfold nest
  split_ifs
  · exact hflush.settled.clears
  · rw [Clears, lead, hflush.lead]
    exact hflush.clears.mono (by omega)

theorem inset_whereClause (hm : m.Indented) (hds : ∀ e ∈ ds, e.Flush) :
    (m.whereClause ds).Inset := by
  unfold whereClause
  split_ifs
  · exact ⟨.inl rfl, .empty⟩
  · have hwhere : (m.aboveOrBeside (.text "where") (m.block m.whereIndent ds)).Headed 1 :=
      hm.headed_aboveOrBeside (.ofText (by decide)) (hm.inset_block hm.whereIndent hds)
    exact inset_nest (k := 2) (by decide) hwhere.flush

end Mode.Indented

end Offside
