import Offside.Proofs.Composed

/-!
# Where texts touch

A page decides which gaps of a document become spaces and which become line breaks, but not where
the gaps are. So the texts that a layout writes right after each other are those that have no gap
between them in the document, in every style.
-/
namespace Offside

open Doc

/-- Texts from left to right, and `none` for a gap. -/
abbrev Beads := List (Option String)

namespace Beads

/-- Two texts without a gap between them are related, of which the first may be the text `last`
before all beads. -/
def Abut (R : String → String → Prop) : Option String → Beads → Prop
  | _, [] => False
  | _, none :: bs => Abut R none bs
  | last, some s :: bs => (∃ t ∈ last, R t s) ∨ Abut R (some s) bs

/-- The text at the end, unless there is a gap after it. -/
def final : Option String → Beads → Option String
  | last, [] => last
  | _, b :: bs => final b bs

section

variable {R : String → String → Prop}

@[simp] theorem abut_nil (last : Option String) : ¬ Abut R last [] := by
  simp [Abut]

@[simp] theorem abut_gap (last : Option String) (bs : Beads) :
    Abut R last (none :: bs) ↔ Abut R none bs := by
  rw [Abut]

@[simp] theorem final_nil (last : Option String) : final last [] = last := rfl

@[simp] theorem final_cons (last : Option String) (b : Option String) (bs : Beads) :
    final last (b :: bs) = final b bs := rfl

theorem final_append (last : Option String) (as bs : Beads) :
    final last (as ++ bs) = final (final last as) bs := by
  induction as generalizing last with
  | nil => rfl
  | cons b as ih => exact ih b

theorem abut_append (last : Option String) (as bs : Beads) :
    Abut R last (as ++ bs) ↔ Abut R last as ∨ Abut R (final last as) bs := by
  induction as generalizing last with
  | nil => simp
  | cons b as ih =>
    cases b with
    | none => rw [List.cons_append, abut_gap, abut_gap, ih, final_cons]
    | some s => rw [List.cons_append, Abut, Abut, ih, final_cons, or_assoc]

/-- What stands before the beads touches at most the first of them. -/
theorem abut_iff (last : Option String) (bs : Beads) :
    Abut R last bs ↔ Abut R none bs ∨ ∃ s ∈ last, ∃ w, bs.head? = some (some w) ∧ R s w := by
  cases bs with
  | nil => simp
  | cons b bs =>
    cases b with
    | none => simp
    | some w =>
      rw [Abut, Abut]
      simp only [Option.mem_def, reduceCtorEq, false_and, exists_false, false_or, List.head?_cons,
        Option.some.injEq]
      grind

end

end Beads

open Beads

/-! ### Layouts -/

def Chunk.bead : Chunk → Option String
  | .text s => some s
  | .spaces _ | .newline => none

/-- The text right before the cursor, of which `last` was written last. -/
def Cursor.held (last : Option String) (c : Cursor) : Option String :=
  if c.owed = 0 then last else none

/-- What was written from a cursor on has its texts and gaps as the beads have. -/
structure Laid.Threads (c : Cursor) (bs : Beads) (x : Laid) : Prop where
  final_eq : ∀ last, x.1.held (final last (x.2.map Chunk.bead)) = final (c.held last) bs
  abut_iff : ∀ R last, Abut R last (x.2.map Chunk.bead) ↔ Abut R (c.held last) bs

namespace Laid.Threads

variable {c : Cursor} {as bs : Beads} {x : Laid}

theorem nil (c : Cursor) : Threads c [] (c, []) := ⟨fun _ => rfl, fun _ _ => by simp⟩

theorem andThen {f : Cursor → Laid} (hx : x.Threads c as) (hf : (f x.1).Threads x.1 bs) :
    (x.andThen f).Threads c (as ++ bs) where
  final_eq last := by
    rw [andThen_fst, andThen_snd, List.map_append, final_append, final_append,
      hf.final_eq, hx.final_eq]
  abut_iff R last := by
    rw [andThen_snd, List.map_append, abut_append, abut_append, hf.abut_iff,
      hx.abut_iff, hx.final_eq]

/-- Owed spaces are a gap, even if there is nothing yet to stand after it. -/
theorem owing {c' : Cursor} (hc : c'.owed ≠ 0) : Threads c [none] (c', []) where
  final_eq last := by rw [Cursor.held, if_neg hc, final_cons, final_nil]
  abut_iff R last := by simp

theorem skip (spaced : Bool) (hx : x.Threads (c.skip spaced) bs) :
    x.Threads c ((if spaced then [none] else []) ++ bs) := by
  cases spaced with
  | false => exact hx
  | true =>
    have howing : Threads c [none] (c.skip true, []) :=
      owing (by simp [Cursor.skip, Cursor.advance])
    exact andThen (f := fun _ => x) howing hx

theorem newline (discipline : Discipline) (target : Int) (c : Cursor) :
    Threads c [none] (c.newline discipline target) := by
  unfold Cursor.newline
  cases discipline with
  | page | left =>
    exact ⟨fun last => by simp [Cursor.held, Chunk.bead], fun R last => by simp [Chunk.bead]⟩
  | oneLine => exact owing (by simp)

/-- Whichever way the cursor goes below, it leaves a gap. -/
theorem below (discipline : Discipline) (indent : Int) (overlap : Bool) (d : Doc) (c : Cursor) :
    Threads c [none] (c.below discipline indent overlap d) := by
  unfold Cursor.below
  dsimp only
  split_ifs with h
  · apply owing
    simp only [Bool.and_eq_true, decide_eq_true_eq] at h
    simp only [Cursor.advance]
    omega
  · exact newline discipline _ c

theorem write (s : String) (c : Cursor) :
    Threads c (if s.isEmpty then [] else [some s]) (c.write s) := by
  unfold Cursor.write
  by_cases hs : s.isEmpty
  · rw [if_pos hs, if_pos hs]
    exact nil c
  · rw [if_neg hs, if_neg hs]
    by_cases hc : c.owed = 0
    · rw [if_pos hc]
      exact ⟨fun last => by simp [Cursor.held, Chunk.bead, hc],
        fun R last => by simp [Cursor.held, Chunk.bead, hc]⟩
    · rw [if_neg hc]
      exact ⟨fun last => by simp [Cursor.held, Chunk.bead],
        fun R last => by simp [Cursor.held, Chunk.bead, hc]⟩

end Laid.Threads

/-! ### Documents -/

namespace Doc

mutual

/-- The texts and gaps of a document. -/
def beads : Doc → Beads
  | .empty => []
  | .text s => if s.isEmpty then [] else [some s]
  | .nested _ d => d.beads
  | .joined l spaced r => l.beads ++ ((if spaced then [none] else []) ++ r.beads)
  | .stacked u _ l => u.beads ++ ([none] ++ l.beads)
  | .grouped _ _ [] => []
  | .grouped _ _ (d :: ds) => d.beads ++ beadsMore ds

/-- Further members of a group, each after a gap. -/
def beadsMore : List Doc → Beads
  | [] => []
  | d :: ds => [none] ++ (d.beads ++ beadsMore ds)

end

/-- Nothing empty is inside, and the members of every group have spaces between them. -/
inductive Full : Doc → Prop where
  | text (s : String) : Full (.text s)
  | nested (k : Int) {d : Doc} (hd : d.Full) : Full (.nested k d)
  | joined {l r : Doc} (hl : l.Full) (spaced : Bool) (hr : r.Full) : Full (.joined l spaced r)
  | stacked {u l : Doc} (hu : u.Full) (overlap : Bool) (hl : l.Full) : Full (.stacked u overlap l)
  | grouped (fill : Bool) {d : Doc} {ds : List Doc} (hd : d.Full) (hds : ∀ e ∈ ds, e.Full) :
      Full (.grouped fill true (d :: ds))

/-- Wherever the document stands, its texts and gaps are written. -/
def Threaded (limits : Limits) (d : Doc) : Prop :=
  ∀ follow indent fit c, (d.lay limits follow indent fit c).Threads c d.beads

section

variable {limits : Limits} {ds : List Doc} (hds : ∀ d ∈ ds, d.Threaded limits)
include hds

theorem threads_layFlat (follow : Nat) (c : Cursor) :
    (layFlat limits follow true ds c).Threads c (beadsMore ds) := by
  induction ds generalizing c with
  | nil => exact .nil c
  | cons d ds ih =>
    obtain ⟨hd, hds⟩ := List.forall_mem_cons.mp hds
    rw [layFlat, beadsMore]
    exact .skip true ((hd _ _ _ _).andThen (ih hds _))

theorem threads_layBelow (follow : Nat) (indent : Int) (c : Cursor) :
    (layBelow limits follow indent ds c).Threads c (beadsMore ds) := by
  induction ds generalizing c with
  | nil => exact .nil c
  | cons d ds ih =>
    obtain ⟨hd, hds⟩ := List.forall_mem_cons.mp hds
    rw [layBelow, beadsMore]
    exact (Laid.Threads.below ..).andThen ((hd _ _ _ _).andThen (ih hds _))

theorem threads_layFill (follow : Nat) (indent : Int) (startLine : Nat) (c : Cursor) :
    (layFill limits follow indent true startLine ds c).Threads c (beadsMore ds) := by
  induction ds generalizing c startLine with
  | nil => exact .nil c
  | cons d ds ih =>
    obtain ⟨hd, hds⟩ := List.forall_mem_cons.mp hds
    rw [layFill, beadsMore]
    split_ifs
    · exact .skip true ((hd _ _ _ _).andThen (ih hds _ _))
    · exact (Laid.Threads.below ..).andThen ((hd _ _ _ _).andThen (ih hds _ _))

end

theorem Full.threaded (limits : Limits) {d : Doc} (hd : d.Full) : d.Threaded limits := by
  induction hd with
  | text s => exact fun follow indent fit c => .write s c
  | nested k _ ih => exact fun follow indent fit c => ih follow (indent + k) fit c
  | joined _ spaced _ ihl ihr =>
    intro follow indent fit c
    rw [lay, beads]
    exact (ihl _ _ _ _).andThen (.skip spaced (ihr _ _ _ _))
  | stacked _ overlap _ ihu ihl =>
    intro follow indent fit c
    rw [lay, beads]
    exact (ihu _ _ _ _).andThen ((Laid.Threads.below ..).andThen (ihl _ _ _ _))
  | grouped fill _ _ ihd ihds =>
    intro follow indent fit c
    rw [lay, beads]
    split_ifs
    · exact (ihd _ _ _ _).andThen (threads_layFlat ihds _ _)
    · exact (ihd _ _ _ _).andThen (threads_layFill ihds _ _ _ _)
    · exact (ihd _ _ _ _).andThen (threads_layBelow ihds _ _ _)

/-- Two texts of the document without a gap between them are related. -/
def Fused (R : String → String → Prop) (d : Doc) : Prop := Abut R none d.beads

/-- The first text of the document, if nothing stands before it. -/
def opening (d : Doc) : Option String := d.beads.head?.join

/-- The last text of the document, if nothing stands after it. -/
def closing (d : Doc) : Option String := final none d.beads

/-- The last text of the one and the first text of the other are related. -/
def Meets (R : String → String → Prop) (l r : Doc) : Prop := ∃ s ∈ l.closing, ∃ w ∈ r.opening, R s w

end Doc

/-- Two texts that stand next to each other in a list of chunks. -/
theorem abut_chunks_iff {R : String → String → Prop} (last : Option String) (cs : List Chunk) :
    Abut R last (cs.map Chunk.bead) ↔
      (∃ s ∈ last, ∃ w, cs.head? = some (.text w) ∧ R s w) ∨
        ∃ s w, [.text s, .text w] <:+: cs ∧ R s w := by
  induction cs generalizing last with
  | nil => simp
  | cons c cs ih =>
    have hpair : ∀ s w, [.text s, .text w] <+: c :: cs ↔
        c = .text s ∧ cs.head? = some (.text w) := by
      intro s w
      rw [List.cons_prefix_cons, eq_comm]
      cases cs with
      | nil => simp
      | cons e cs => simp [List.cons_prefix_cons, eq_comm]
    simp only [List.infix_cons_iff, hpair]
    cases c with
    | text t =>
      rw [List.map_cons, Chunk.bead, Abut, ih]
      simp only [List.head?_cons, Option.mem_def, Option.some.injEq, Chunk.text.injEq]
      grind
    | spaces n | newline =>
      rw [List.map_cons, Chunk.bead, abut_gap, ih]
      simp

/-- The texts that a layout writes right after each other are those without a gap between them. -/
theorem Doc.Full.fused_iff {d : Doc} (hd : d.Full) (style : Style) (R : String → String → Prop) :
    d.Fused R ↔ ∃ s w, [.text s, .text w] <:+: d.chunks style ∧ R s w := by
  have hlay := hd.threaded style.limits 0 0 .broken (.start style.discipline d)
  have hstart : (Cursor.start style.discipline d).held none = none := ite_self none
  have hchunks := abut_chunks_iff (R := R) none (d.chunks style)
  rw [chunks_eq_lay, hlay.abut_iff, hstart] at hchunks
  rw [Fused, hchunks, chunks_eq_lay]
  simp

/-! ### Composed documents -/

namespace Doc

/-- Empty as a whole or nowhere, which the combinators keep. -/
theorem kept_full : Kept (fun _ => True) fun d => d.isEmpty = false → d.Full where
  empty := by simp
  text {s} _ _ := .text s
  beside spaced hl hr := by
    unfold Doc.beside
    split_ifs with hlempty hrempty
    · exact hr
    · exact hl
    · exact fun _ => .joined (hl (by simpa using hlempty)) spaced (hr (by simpa using hrempty))
  above hu hl := by
    unfold Doc.above Doc.stack
    split_ifs with huempty hlempty
    · exact hl
    · exact hu
    · exact fun _ => .stacked (hu (by simpa using huempty)) true (hl (by simpa using hlempty))
  nest k d hd := by
    unfold Doc.nest
    split_ifs with h
    · exact hd
    · exact fun _ => .nested k (hd (by grind))
  fsep {ds} hds := by
    have hfull : ∀ d ∈ ds.filter fun d => !d.isEmpty, d.Full := fun d hd =>
      hds d (List.mem_of_mem_filter hd) (isEmpty_of_mem_filter hd)
    unfold Doc.fsep Doc.group
    split
    · simp
    · next d heq => exact fun _ => hfull d (by simp [heq])
    · next hnil _ =>
      obtain ⟨d, es, heq⟩ := List.exists_cons_of_ne_nil hnil
      rw [heq] at hfull ⊢
      exact fun _ => .grouped true (hfull d (by simp)) fun e he => hfull e (by simp [he])

end Doc

/-- No document of a tree without a fault has an empty part. -/
theorem Syntax.Node.WellFormed.full {t : Node} (ht : t.WellFormed) (m : Mode) (level : Nat) :
    (t.pretty m level).value.Full := by
  obtain ⟨w, hbegins⟩ := ht.exists_begins m level
  exact (kept_full.keeps (fun _ _ => trivial) m).pretty phrasing_true ht t.worded_true level
    hbegins.isEmpty

end Offside
