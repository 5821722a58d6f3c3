import Offside.Proofs.Alphabet
import Offside.Proofs.Seams

/-!
# Texts that would be read as one

Two operator signs of different words that stand right next to each other are read as one operator,
and a brace before a minus sign as the start of a comment. In a plan this can only happen where two
parts have no space between them, or where the brace of a module meets its first member; everything
else comes from the trees and blocks of the plan.
-/
namespace Offside

open Beads Doc

/-! ### Gaps in rows -/

namespace Doc

variable {d : Doc}

theorem beads_of_isEmpty (hd : d.isEmpty = true) : d.beads = [] := by
  rw [Doc.isEmpty_iff.mp hd, beads]

@[simp] theorem beads_append (l r : Doc) : (l ++ r).beads = l.beads ++ r.beads := by
  show (l.beside false r).beads = _
  unfold beside
  split_ifs with hl hr
  · rw [beads_of_isEmpty hl, List.nil_append]
  · rw [beads_of_isEmpty hr, List.append_nil]
  · simp [beads]

/-- Before something there is a gap, whether it goes to the right or below. -/
def after (l r : Doc) : Beads :=
  if r.isEmpty then [] else if l.isEmpty then r.beads else none :: r.beads

theorem beads_appendSpace (l r : Doc) : (l.appendSpace r).beads = l.beads ++ after l r := by
  unfold appendSpace beside after
  split_ifs with hl hr hr
  · rw [beads_of_isEmpty hl, beads_of_isEmpty hr, List.nil_append]
  · rw [beads_of_isEmpty hl, List.nil_append]
  · rw [List.append_nil]
  · simp [beads]

theorem beads_above (u l : Doc) : (u.above l).beads = (u.appendSpace l).beads := by
  unfold above stack appendSpace beside
  split_ifs <;> simp [beads]

@[simp] theorem beads_nest (k : Int) (d : Doc) : (d.nest k).beads = d.beads := by
  unfold nest
  split_ifs <;> simp [beads]

/-- The texts and gaps of a row. -/
def beadsRow (ds : List Doc) : Beads :=
  match ds.filter fun d => !d.isEmpty with
  | [] => []
  | d :: ds => d.beads ++ beadsMore ds

theorem beads_foldl {f : Doc → Doc → Doc} (hf : ∀ d e, (f d e).beads = (d.appendSpace e).beads)
    (hempty : ∀ d e, (f d e).isEmpty = (d.isEmpty && e.isEmpty)) (hd : d.isEmpty = false)
    (ds : List Doc) :
    (ds.foldl f d).beads = d.beads ++ beadsMore (ds.filter fun d => !d.isEmpty) := by
  induction ds generalizing d with
  | nil => simp [beadsMore]
  | cons e ds ih =>
    rw [List.foldl_cons, ih (by rw [hempty, hd, Bool.false_and]), hf, beads_appendSpace, after, hd,
      List.append_assoc]
    by_cases he : e.isEmpty
    · simp [he]
    · simp [he, beadsMore]

theorem beads_foldl_empty {f : Doc → Doc → Doc}
    (hf : ∀ d e, (f d e).beads = (d.appendSpace e).beads)
    (hempty : ∀ d e, (f d e).isEmpty = (d.isEmpty && e.isEmpty)) (hstart : ∀ e, f .empty e = e)
    (ds : List Doc) : (ds.foldl f .empty).beads = beadsRow ds := by
  induction ds with
  | nil => rfl
  | cons e ds ih =>
    rw [List.foldl_cons, hstart]
    by_cases he : e.isEmpty
    · rw [Doc.isEmpty_iff.mp he, ih, beadsRow, beadsRow, List.filter_cons_of_neg (by simp)]
    · rw [beads_foldl hf hempty (by simpa using he), beadsRow,
        List.filter_cons_of_pos (by simpa using he)]

theorem beads_hsep (ds : List Doc) : (hsep ds).beads = beadsRow ds :=
  beads_foldl_empty (fun _ _ => rfl) isEmpty_appendSpace (fun _ => rfl) ds

theorem beads_vcat (ds : List Doc) : (vcat ds).beads = beadsRow ds :=
  beads_foldl_empty beads_above isEmpty_above (fun _ => rfl) ds

theorem beads_fsep (ds : List Doc) : (fsep ds).beads = beadsRow ds := by
  unfold fsep group beadsRow
  generalize (ds.filter fun d => !d.isEmpty) = members
  rcases members with _ | ⟨d, _ | ⟨e, es⟩⟩
  · rfl
  · simp [beadsMore]
  · rw [beads]

end Doc

namespace Mode

variable (m : Mode)

theorem beads_aboveOrBeside (u l : Doc) :
    (m.aboveOrBeside u l).beads = (u.appendSpace l).beads := by
  unfold aboveOrBeside
  split
  · exact beads_above u l
  · rfl

/-- All rows have the same gaps. -/
theorem beads_row (arrangement : Syntax.Row) (ds : List Doc) :
    (arrangement.doc m ds).beads = beadsRow ds := by
  have hcons : ∀ {d es}, ds.filter (fun d => !d.isEmpty) = d :: es →
      d.isEmpty = false ∧ es.filter (fun d => !d.isEmpty) = es := by
    intro d es h
    have hmem := fun e (he : e ∈ d :: es) => isEmpty_of_mem_filter (h ▸ he)
    exact ⟨hmem d (by simp), List.filter_eq_self.mpr fun e he => by simp [hmem e (by simp [he])]⟩
  cases arrangement with
  | sepFirst =>
    simp only [Syntax.Row.doc, sepFirst]
    split
    · split
      · next h => simp [beadsRow, h, beads]
      · next d es h =>
        obtain ⟨hd, hes⟩ := hcons h
        rw [beadsRow, h, beads_appendSpace, after, hd, fsep, isEmpty_group, ← fsep, beads_fsep,
          beadsRow, hes]
        cases es with
        | nil => simp [beadsMore]
        | cons e es => simp [beadsMore, isEmpty_of_mem_filter (hes ▸ List.mem_cons_self)]
    · exact beads_hsep ds
  | lines =>
    simp only [Syntax.Row.doc, lines]
    split
    · exact beads_vcat ds
    · exact beads_hsep ds
  | fill =>
    simp only [Syntax.Row.doc, fill]
    split
    · exact beads_fsep ds
    · exact beads_hsep ds
  | fillOnside =>
    simp only [Syntax.Row.doc, fillOnside]
    split
    · split
      · next h => simp [beadsRow, h, beads]
      · next d es h =>
        obtain ⟨hd, hes⟩ := hcons h
        rw [beads_nest, beads_fsep, beadsRow, List.filter_cons_of_pos (by simp [hd]),
          hes, beadsRow, h]
        simp only [beads_nest]
    · exact beads_hsep ds

end Mode

/-! ### Fused documents -/

namespace Doc

variable {R : String → String → Prop}

@[simp] theorem fused_empty : ¬ Doc.empty.Fused R := by
  simp [Fused, beads]

@[simp] theorem fused_text (s : String) : ¬ (Doc.text s).Fused R := by
  unfold Fused
  rw [beads]
  split <;> simp [Abut]

@[simp] theorem closing_text {s : String} (hs : s ≠ "") : (Doc.text s).closing = some s := by
  simp [closing, beads, hs]

theorem abut_beads_iff (last : Option String) (d : Doc) :
    Abut R last d.beads ↔ d.Fused R ∨ ∃ s ∈ last, ∃ w ∈ d.opening, R s w := by
  rw [Beads.abut_iff, Fused, opening]
  simp only [Option.mem_def, Option.join_eq_some_iff]

@[simp] theorem fused_append (l r : Doc) :
    (l ++ r).Fused R ↔ l.Fused R ∨ r.Fused R ∨ l.Meets R r := by
  rw [Fused, beads_append, abut_append, abut_beads_iff _ r]
  rfl

@[simp] theorem fused_appendSpace (l r : Doc) :
    (l.appendSpace r).Fused R ↔ l.Fused R ∨ r.Fused R := by
  rw [Fused, beads_appendSpace, abut_append, after]
  split_ifs with hr hl
  · simp [Doc.isEmpty_iff.mp hr, ← Fused.eq_def]
  · rw [beads_of_isEmpty hl]
    simp [Fused, beads_of_isEmpty hl]
  · rw [abut_gap]
    rfl

@[simp] theorem fused_above (u l : Doc) : (u.above l).Fused R ↔ u.Fused R ∨ l.Fused R := by
  rw [← fused_appendSpace, Fused, beads_above, Fused]

@[simp] theorem fused_nest (k : Int) (d : Doc) : (d.nest k).Fused R ↔ d.Fused R := by
  rw [Fused, beads_nest, Fused]

theorem abut_beadsMore_iff (last : Option String) (ds : List Doc) :
    Abut R last (beadsMore ds) ↔ ∃ d ∈ ds, d.Fused R := by
  induction ds generalizing last with
  | nil => simp [beadsMore]
  | cons d ds ih =>
    rw [beadsMore, List.singleton_append, abut_gap, abut_append, ih, List.exists_mem_cons_iff]
    rfl

theorem abut_beadsRow_iff (ds : List Doc) : Abut R none (beadsRow ds) ↔ ∃ d ∈ ds, d.Fused R := by
  have hfilter : (∃ d ∈ ds, d.Fused R) ↔ ∃ d ∈ ds.filter fun d => !d.isEmpty, d.Fused R := by
    simp only [List.mem_filter, Bool.not_eq_true', ← Bool.not_eq_true]
    constructor
    · rintro ⟨d, hd, hfused⟩
      refine ⟨d, ⟨hd, fun hempty => ?_⟩, hfused⟩
      rw [Doc.isEmpty_iff.mp hempty] at hfused
      exact fused_empty hfused
    · rintro ⟨d, hd, hfused⟩
      exact ⟨d, hd.1, hfused⟩
  rw [hfilter, beadsRow]
  cases ds.filter fun d => !d.isEmpty with
  | nil => simp
  | cons d ds =>
    rw [List.exists_mem_cons_iff, abut_append, abut_beadsMore_iff]
    rfl

@[simp] theorem fused_hsep (ds : List Doc) : (hsep ds).Fused R ↔ ∃ d ∈ ds, d.Fused R := by
  rw [Fused, beads_hsep, abut_beadsRow_iff]

@[simp] theorem fused_vcat (ds : List Doc) : (vcat ds).Fused R ↔ ∃ d ∈ ds, d.Fused R := by
  rw [Fused, beads_vcat, abut_beadsRow_iff]

end Doc

namespace Mode

variable {R : String → String → Prop} (m : Mode)

@[simp] theorem fused_aboveOrBeside (u l : Doc) :
    (m.aboveOrBeside u l).Fused R ↔ u.Fused R ∨ l.Fused R := by
  rw [← fused_appendSpace, Fused, beads_aboveOrBeside, Fused]

@[simp] theorem fused_row (arrangement : Syntax.Row) (ds : List Doc) :
    (arrangement.doc m ds).Fused R ↔ ∃ d ∈ ds, d.Fused R := by
  rw [Fused, beads_row, abut_beadsRow_iff]

end Mode

/-! ### Signs -/

namespace Reading

/-- Two texts that are read as one where they stand right next to each other: operator signs on both
sides, or the start of a comment. A module and its dot belong to the name that comes after. -/
def Alphabet.Fuses (a : Alphabet) (s w : String) : Prop :=
  ∃ c ∈ s.toList.getLast?, ∃ d ∈ w.toList.head?,
    c ∈ asciiSymbols ∧ d ∈ asciiSymbols ∧ (¬ ∃ m : Syntax.ModuleName, a.IsModule m ∧
      s = m.text ++ ".") ∨
      c = '\x7b' ∧ d = '-'

/-- Whether nothing fuses with the end of the text. -/
def closesSoftly (s : String) : Bool :=
  s.toList.getLast?.all fun c => c ∉ asciiSymbols && c ≠ '\x7b'

/-- Whether nothing fuses with the start of the text. -/
def opensSoftly (w : String) : Bool := w.toList.head?.all fun d => d ∉ asciiSymbols

variable {a : Alphabet} {s w : String}

theorem not_fuses_of_closesSoftly (hs : closesSoftly s = true) (w : String) : ¬ a.Fuses s w := by
  rintro ⟨c, hc, d, -, h⟩
  rw [closesSoftly, Option.mem_def.mp hc] at hs
  simp only [Option.all_some, Bool.and_eq_true, decide_eq_true_eq, ne_eq] at hs
  grind

theorem not_fuses_of_opensSoftly (s : String) (hw : opensSoftly w = true) : ¬ a.Fuses s w := by
  rintro ⟨c, -, d, hd, h⟩
  rw [opensSoftly, Option.mem_def.mp hd] at hw
  simp only [Option.all_some, decide_eq_true_eq] at hw
  rcases h with ⟨-, hsign, -⟩ | ⟨-, rfl⟩
  · exact hw hsign
  · exact hw (by decide)

theorem not_fuses_of_isModule {m : Syntax.ModuleName} (hm : a.IsModule m) (w : String) :
    ¬ a.Fuses (m.text ++ ".") w := by
  rintro ⟨c, hc, d, -, ⟨-, -, h⟩ | ⟨rfl, -⟩⟩
  · exact h ⟨m, hm, rfl⟩
  · simp at hc

end Reading

open Reading

namespace Doc

variable {a : Alphabet}

theorem not_meets_of_closing {l : Doc} (hl : ∀ s ∈ l.closing, closesSoftly s = true) (r : Doc) :
    ¬ l.Meets a.Fuses r := by
  rintro ⟨s, hs, w, -, h⟩
  exact not_fuses_of_closesSoftly (hl s hs) w h

theorem not_meets_of_opening (l : Doc) {r : Doc} (hr : ∀ w ∈ r.opening, opensSoftly w = true) :
    ¬ l.Meets a.Fuses r := by
  rintro ⟨s, -, w, hw, h⟩
  exact not_fuses_of_opensSoftly s (hr w hw) h

theorem mem_opening_text {s w : String} (h : w ∈ (text s).opening) : w = s := by
  unfold opening at h
  rw [beads] at h
  split at h <;> simp_all

theorem mem_closing_text {s w : String} (h : w ∈ (text s).closing) : w = s := by
  unfold closing at h
  rw [beads] at h
  split at h <;> simp_all

theorem not_text_meets {s : String} (hs : closesSoftly s = true) (r : Doc) :
    ¬ (text s).Meets a.Fuses r :=
  not_meets_of_closing (fun _ h => mem_closing_text h ▸ hs) r

theorem not_meets_text (l : Doc) {w : String} (hw : opensSoftly w = true) :
    ¬ l.Meets a.Fuses (text w) :=
  not_meets_of_opening l fun _ h => mem_opening_text h ▸ hw

/-- Signs that fuse with nothing before them can be put after anything. -/
theorem fused_append_text (l : Doc) {w : String} (hw : opensSoftly w = true) :
    (l ++ text w).Fused a.Fuses ↔ l.Fused a.Fuses := by
  simp [not_meets_text l hw]

theorem fused_text_append {s : String} (hs : closesSoftly s = true) (r : Doc) :
    (text s ++ r).Fused a.Fuses ↔ r.Fused a.Fuses := by
  simp [not_text_meets hs r]

theorem fused_punctuate (ds : List Doc) :
    (∃ d ∈ punctuate semi ds, d.Fused a.Fuses) ↔ ∃ d ∈ ds, d.Fused a.Fuses := by
  fun_induction punctuate semi ds with
  | case1 => rfl
  | case2 d => rfl
  | case3 d ds _ ih =>
    rw [List.exists_mem_cons_iff, List.exists_mem_cons_iff, ih]
    exact or_congr (fused_append_text d (by decide)) Iff.rfl

theorem fused_braces (d : Doc) :
    d.braces.Fused a.Fuses ↔ d.Fused a.Fuses ∨ lbrace.Meets a.Fuses d := by
  rw [braces, rbrace, fused_append_text _ (by decide), fused_append]
  simp [lbrace]

theorem fused_braces_space (d : Doc) : (space ++ d).braces.Fused a.Fuses ↔ d.Fused a.Fuses := by
  have hspace : (space ++ d).opening = some " " := by
    simp [opening, space, beads]
  have hmeets : ¬ lbrace.Meets a.Fuses (space ++ d) := not_meets_of_opening _ fun w hw => by
    rw [hspace] at hw
    obtain rfl := Option.mem_some.mp hw
    decide
  rw [fused_braces, space, fused_text_append (by decide)]
  simp only [space] at hmeets
  simp [hmeets]

end Doc

namespace Mode

variable {a : Alphabet} (m : Mode) (ds : List Doc)

theorem fused_clauses : (m.clauses ds).Fused a.Fuses ↔ ∃ d ∈ ds, d.Fused a.Fuses := by
  unfold clauses
  split <;> simp [fused_punctuate]

theorem fused_block (indent : Nat) :
    (m.block indent ds).Fused a.Fuses ↔ ∃ d ∈ ds, d.Fused a.Fuses := by
  unfold block
  split <;> simp [fused_punctuate, fused_braces_space]

theorem fused_whereClause : (m.whereClause ds).Fused a.Fuses ↔ ∃ d ∈ ds, d.Fused a.Fuses := by
  unfold whereClause
  split
  · next h => simp [List.isEmpty_iff.mp h]
  · simp [fused_block]

/-- The members of a module stand right after a brace, if the layout has braces. -/
theorem fused_topLevel (header : Doc) :
    (m.topLevel header ds).Fused a.Fuses ↔
      header.Fused a.Fuses ∨ (∃ d ∈ ds, d.Fused a.Fuses) ∨
        m.layout ≠ .offside ∧ lbrace.Meets a.Fuses (hsep (punctuate semi ds)) := by
  have hmeets : lbrace.Meets a.Fuses (vcat (punctuate semi ds)) ↔
      lbrace.Meets a.Fuses (hsep (punctuate semi ds)) := by
    rw [Meets, Meets, opening, opening, beads_vcat, beads_hsep]
  unfold topLevel
  split <;> next hlayout => simp [hlayout, fused_braces, fused_punctuate, hmeets]

end Mode

/-! ### Plans -/

namespace Syntax

variable (a : Alphabet) (m : Mode)

/-- The documents of an atom hold fused texts. -/
def Atom.Fused : Atom → Prop
  | .word _ => False
  | .tree t level => (t.pretty m level).value.Fused a.Fuses
  | .block items => ∃ t ∈ items, (t.doc m).Fused a.Fuses

@[simp] theorem Atom.fused_word (s : String) : ¬ (Atom.word s).Fused a m := id

@[simp] theorem Atom.fused_tree (t : Node) (level : Nat) :
    (Atom.tree t level).Fused a m ↔ (t.pretty m level).value.Fused a.Fuses := Iff.rfl

@[simp] theorem Atom.fused_block (items : List Node) :
    (Atom.block items).Fused a m ↔ ∃ t ∈ items, (t.doc m).Fused a.Fuses := Iff.rfl

namespace Sketch

mutual

/-- Two parts of the plan itself meet in texts that fuse. -/
def Collides : Sketch → Prop
  | .beside l spaced r =>
    l.Collides ∨ r.Collides ∨ spaced = false ∧ (l.doc m).Meets a.Fuses (r.doc m)
  | .upon u l => u.Collides ∨ l.Collides
  | .row _ parts => AnyCollides parts
  | .topLevel _ header items =>
    AnyCollides header ∨
      m.layout ≠ .offside ∧
      lbrace.Meets a.Fuses (hsep (Doc.punctuate semi (items.map (Node.doc m))))
  | _ => False

def AnyCollides : List Sketch → Prop
  | [] => False
  | s :: ss => s.Collides ∨ AnyCollides ss

end

variable {a m}

theorem anyCollides_iff (ss : List Sketch) : AnyCollides a m ss ↔ ∃ s ∈ ss, s.Collides a m := by
  induction ss with
  | nil => exact iff_of_false id (by simp)
  | cons s ss ih =>
    rw [List.exists_mem_cons_iff, ← ih]
    rfl

@[simp] theorem collides_nothing : ¬ nothing.Collides a m := id

@[simp] theorem collides_word (s : String) : ¬ (word s).Collides a m := id

@[simp] theorem collides_tree (t : Node) (level : Nat) : ¬ (tree t level).Collides a m := id

theorem collides_beside (l : Sketch) (spaced : Bool) (r : Sketch) :
    (beside l spaced r).Collides a m ↔
      l.Collides a m ∨ r.Collides a m ∨ spaced = false ∧ (l.doc m).Meets a.Fuses (r.doc m) :=
  Iff.rfl

@[simp] theorem collides_append (l r : Sketch) :
    (l ++ r).Collides a m ↔ l.Collides a m ∨ r.Collides a m ∨
      (l.doc m).Meets a.Fuses (r.doc m) := by
  refine (collides_beside l false r).trans ?_
  simp

@[simp] theorem collides_appendSpace (l r : Sketch) :
    (l.appendSpace r).Collides a m ↔ l.Collides a m ∨ r.Collides a m := by
  refine (collides_beside l true r).trans ?_
  simp

@[simp] theorem collides_upon (u l : Sketch) :
    (upon u l).Collides a m ↔ u.Collides a m ∨ l.Collides a m := Iff.rfl

@[simp] theorem collides_row (arrangement : Row) (parts : List Sketch) :
    (row arrangement parts).Collides a m ↔ ∃ s ∈ parts, s.Collides a m := anyCollides_iff parts

@[simp] theorem collides_clauses (items : List Node) : ¬ (clauses items).Collides a m := id

@[simp] theorem collides_block (indent : Mode → Nat) (items : List Node) :
    ¬ (block indent items).Collides a m := id

@[simp] theorem collides_wheres (items : List Node) : ¬ (wheres items).Collides a m := id

theorem collides_topLevel (keyword : String) (header : List Sketch) (items : List Node) :
    (topLevel keyword header items).Collides a m ↔
      (∃ s ∈ header, s.Collides a m) ∨
        m.layout ≠ .offside ∧
        lbrace.Meets a.Fuses (hsep (Doc.punctuate semi (items.map (Node.doc m)))) :=
  or_congr_left (anyCollides_iff header)

/-- Texts fuse where parts of the plan meet, or inside its trees and blocks. -/
theorem fused_doc_iff (s : Sketch) :
    (s.doc m).Fused a.Fuses ↔ s.Collides a m ∨ ∃ x ∈ s.atoms, x.Fused a m := by
  induction s using Sketch.inductOn with
  | nothing => simp
  | word s => simp
  | tree t level => simp
  | beside l spaced r ihl ihr =>
    rw [doc, collides_beside, atoms]
    simp only [List.mem_append, or_and_right, exists_or]
    cases spaced with
    | false =>
      have happend := fused_append (R := a.Fuses) (l.doc m) (r.doc m)
      rw [ihl, ihr] at happend
      refine happend.trans ?_
      grind
    | true =>
      have happend := fused_appendSpace (R := a.Fuses) (l.doc m) (r.doc m)
      rw [ihl, ihr] at happend
      refine happend.trans ?_
      grind
  | upon u l ihu ihl =>
    rw [doc_upon, Mode.fused_aboveOrBeside, ihu, ihl, collides_upon, atoms_upon]
    simp only [List.mem_append, or_and_right, exists_or]
    grind
  | row arrangement parts ih =>
    rw [doc_row, Mode.fused_row, collides_row, atoms_row]
    simp only [List.mem_map, List.mem_flatMap]
    grind
  | clauses items => simp [Mode.fused_clauses, Node.doc]
  | block indent items => simp [Mode.fused_block]
  | wheres items => cases items <;> simp [Mode.fused_whereClause]
  | topLevel keyword header items ih =>
    have hheader : (m.sepFirst (.text keyword :: header.map (doc m))).Fused a.Fuses ↔
        ∃ s ∈ header, (s.doc m).Fused a.Fuses := by
      refine (m.fused_row .sepFirst _).trans ?_
      simp
    have hitems : (∃ t ∈ items, (t.doc m).Fused a.Fuses) ↔
        ∃ t ∈ items, (Atom.tree t 0).Fused a m := Iff.rfl
    rw [doc_topLevel, Mode.fused_topLevel, hheader, collides_topLevel, atoms_topLevel]
    simp only [List.mem_append, List.mem_cons, List.mem_map, List.mem_flatMap]
    grind [Atom.fused_word]

@[simp] theorem collides_parens (s : Sketch) : s.parens.Collides a m ↔ s.Collides a m := by
  simp [parens, not_text_meets (s := "(") (by decide), not_meets_text _ (w := ")") (by decide)]

@[simp] theorem collides_brackets (s : Sketch) : s.brackets.Collides a m ↔ s.Collides a m := by
  simp [brackets, not_text_meets (s := "[") (by decide), not_meets_text _ (w := "]") (by decide)]

@[simp] theorem collides_braces (s : Sketch) :
    s.braces.Collides a m ↔ s.Collides a m ∨ lbrace.Meets a.Fuses (s.doc m) := by
  simp [braces, lbrace, not_meets_text _ (w := "\x7d") (by decide)]

@[simp] theorem collides_backquoted (s : Sketch) : s.backquoted.Collides a m ↔ s.Collides a m := by
  simp [backquoted, not_text_meets (s := "\x60") (by decide),
    not_meets_text _ (w := "\x60") (by decide)]

@[simp] theorem collides_parensIf (b : Bool) (s : Sketch) :
    (parensIf b s).Collides a m ↔ s.Collides a m := by
  cases b with
  | false => rfl
  | true => exact collides_parens s

@[simp] theorem collides_punctuate (ss : List Sketch) :
    (∃ s ∈ punctuate ss, s.Collides a m) ↔ ∃ s ∈ ss, s.Collides a m := by
  fun_induction punctuate ss with
  | case1 => rfl
  | case2 s => rfl
  | case3 s ss _ ih => simp [ih, not_meets_text _ (w := ",") (by decide)]

@[simp] theorem not_collides_punctuate (ss : List Sketch) :
    (∀ s ∈ punctuate ss, ¬ s.Collides a m) ↔ ∀ s ∈ ss, ¬ s.Collides a m := by
  have hnone := not_congr (collides_punctuate (a := a) (m := m) ss)
  simp only [not_exists, not_and] at hnone
  exact hnone

@[simp] theorem collides_parenList (ss : List Sketch) :
    (parenList ss).Collides a m ↔ ∃ s ∈ ss, s.Collides a m := by
  simp [parenList]

@[simp] theorem collides_bracketList (ss : List Sketch) :
    (bracketList ss).Collides a m ↔ ∃ s ∈ ss, s.Collides a m := by
  simp [bracketList]

@[simp] theorem collides_braceList (ss : List Sketch) :
    (braceList ss).Collides a m ↔
      (∃ s ∈ ss, s.Collides a m) ∨
        lbrace.Meets a.Fuses (m.fill (Doc.punctuate comma (ss.map (doc m)))) := by
  simp [braceList]

end Sketch

end Syntax

end Offside
