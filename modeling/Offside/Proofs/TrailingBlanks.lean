import Offside.Proofs.LineEnds
import Offside.Proofs.Openings
import Offside.Proofs.WrittenNumbers

/-!
# Where printed lines end in a blank

Trees are printed as tidy documents, so their lines end cleanly unless a space stands before an
empty text. A space is only written after the opening brace of a block, and an empty text only above
a declaration that binds nothing. The two meet where such a declaration comes first in a block with
braces.
-/
namespace Offside

open Doc Number Syntax Text

/-! ### Neat documents -/

/-- Nothing, or a tidy document. -/
def Doc.Neat (d : Doc) : Prop := d = .empty ∨ d.Tidy

theorem Doc.Tidy.neat {d : Doc} (hd : d.Tidy) : d.Neat := .inr hd

namespace Doc.Neat

variable {d l r : Doc} {ds : List Doc}

theorem empty : Neat .empty := .inl rfl

theorem ofText {s : String} (hs : IsSolid s) : Neat (.text s) := .inr (.text hs)

theorem tidy (hd : d.Neat) (hne : d.isEmpty = false) : d.Tidy := by
  rcases hd with rfl | hd
  · simp [Doc.isEmpty] at hne
  · exact hd

/-- A neat document does not end in a space. -/
theorem last_ne_space (hd : d.Neat) : ∀ s ∈ d.leaves.getLast?, s ≠ " " := by
  rcases hd with rfl | hd
  · simp [leaves]
  · exact hd.endsSolid.last_ne_space

theorem calm_append (hd : d.Neat) (ss : List String) :
    Calm (d.leaves ++ ss) ↔ Calm d.leaves ∧ Calm ss :=
  Offside.calm_append hd.last_ne_space

theorem calm_flatMap (hds : ∀ d ∈ ds, d.Neat) :
    Calm (ds.flatMap leaves) ↔ ∀ d ∈ ds, Calm d.leaves := by
  induction ds with
  | nil => simp [Calm]
  | cons d ds ih =>
    obtain ⟨hd, hds⟩ := List.forall_mem_cons.mp hds
    rw [List.flatMap_cons, hd.calm_append, ih hds, List.forall_mem_cons]

theorem beside (hl : l.Neat) (hr : r.Neat) (spaced : Bool) : (l.beside spaced r).Neat := by
  unfold Doc.beside
  split_ifs with hlempty hrempty
  · exact hr
  · exact hl
  · exact .inr (.joined (hl.tidy (by simpa using hlempty)) spaced
      (hr.tidy (by simpa using hrempty)))

theorem append (hl : l.Neat) (hr : r.Neat) : (l ++ r).Neat := hl.beside hr false

theorem above (hl : l.Neat) (hr : r.Neat) : (l.above r).Neat := by
  unfold Doc.above Doc.stack
  split_ifs with hlempty hrempty
  · exact hr
  · exact hl
  · exact .inr (.stacked (hl.tidy (by simpa using hlempty)) true (hr.tidy (by simpa using hrempty)))

theorem nest (hd : d.Neat) (k : Int) : (d.nest k).Neat := by
  unfold Doc.nest
  split_ifs with h
  · exact hd
  · exact .inr (.nested k (hd.tidy (by grind)))

theorem group (hds : ∀ d ∈ ds, d.Neat) (fill spaced : Bool) : (group fill spaced ds).Neat := by
  have htidy : ∀ d ∈ ds.filter fun d => !d.isEmpty, d.Tidy := by
    intro d hd
    obtain ⟨hd, hne⟩ := List.mem_filter.mp hd
    exact (hds d hd).tidy (by simpa using hne)
  unfold Doc.group
  generalize (ds.filter fun d => !d.isEmpty) = members at htidy
  match members, htidy with
  | [], _ => exact empty
  | [d], htidy => exact .inr (htidy d (by simp))
  | d :: e :: ds, htidy =>
    obtain ⟨hd, hds⟩ := List.forall_mem_cons.mp htidy
    exact .inr (.grouped fill spaced hd hds)

theorem foldl {f : Doc → Doc → Doc} (hf : ∀ {d e : Doc}, d.Neat → e.Neat → (f d e).Neat)
    (hds : ∀ d ∈ ds, d.Neat) (hd : d.Neat) : (ds.foldl f d).Neat := by
  induction ds generalizing d with
  | nil => exact hd
  | cons e ds ih =>
    obtain ⟨he, hds⟩ := List.forall_mem_cons.mp hds
    exact ih hds (hf hd he)

theorem hsep (hds : ∀ d ∈ ds, d.Neat) : (hsep ds).Neat :=
  foldl (fun hd he => hd.beside he true) hds empty

theorem vcat (hds : ∀ d ∈ ds, d.Neat) : (vcat ds).Neat := foldl (fun hd he => hd.above he) hds empty

theorem braces (hd : d.Neat) : d.braces.Neat :=
  ((ofText (by decide)).append hd).append (ofText (by decide))

/-- The members of a block follow a space. -/
theorem bracesSpace (hd : d.Neat) : (space ++ d).braces.Neat := by
  rcases hd with rfl | hd
  · exact .inr .hollow
  · have hne : d.isEmpty = false := by
      cases hd <;> rfl
    have hspace : space ++ d = .joined (.text " ") false d := by
      show (if d.isEmpty then _ else _) = _
      rw [hne]
      rfl
    rw [hspace]
    exact .inr (.braced hd)

theorem punctuate (hds : ∀ d ∈ ds, d.Neat) : ∀ d ∈ punctuate semi ds, d.Neat := by
  fun_induction Doc.punctuate semi ds with
  | case1 => simp
  | case2 d => exact hds
  | case3 d ds _ ih =>
    obtain ⟨hd, hds⟩ := List.forall_mem_cons.mp hds
    exact List.forall_mem_cons.mpr ⟨hd.append (ofText (by decide)), ih hds⟩

variable (m : Mode)

theorem aboveOrBeside (hl : l.Neat) (hr : r.Neat) : (m.aboveOrBeside l r).Neat := by
  unfold Mode.aboveOrBeside
  split
  · exact hl.above hr
  · exact hl.beside hr true

theorem row (arrangement : Row) (hds : ∀ d ∈ ds, d.Neat) : (arrangement.doc m ds).Neat := by
  have hmem : ∀ d ∈ ds.filter fun d => !d.isEmpty, d.Neat :=
    fun d hd => hds d (List.mem_of_mem_filter hd)
  cases arrangement with
  | sepFirst =>
    simp only [Row.doc, Mode.sepFirst]
    split
    · split
      · exact empty
      · next d es hfilter =>
        rw [hfilter, List.forall_mem_cons] at hmem
        exact hmem.1.beside (group hmem.2 true true) true
    · exact hsep hds
  | lines =>
    simp only [Row.doc, Mode.lines]
    split
    · exact vcat hds
    · exact hsep hds
  | fill =>
    simp only [Row.doc, Mode.fill]
    split
    · exact group hds true true
    · exact hsep hds
  | fillOnside =>
    simp only [Row.doc, Mode.fillOnside]
    split
    · split
      · exact empty
      · next d es hfilter =>
        rw [hfilter, List.forall_mem_cons] at hmem
        exact (group (List.forall_mem_cons.mpr ⟨hmem.1.nest _, hmem.2⟩) true true).nest _
    · exact hsep hds

theorem clauses (hds : ∀ d ∈ ds, d.Neat) : (m.clauses ds).Neat := by
  unfold Mode.clauses
  split
  · exact vcat hds
  · exact vcat (punctuate hds)
  · exact hsep (punctuate hds)
  · exact hsep (punctuate hds)

theorem block (indent : Nat) (hds : ∀ d ∈ ds, d.Neat) : (m.block indent ds).Neat := by
  unfold Mode.block
  split
  · exact (vcat hds).nest _
  · exact (bracesSpace (vcat (punctuate hds))).nest _
  · exact bracesSpace (hsep (punctuate hds))
  · exact bracesSpace (hsep (punctuate hds))

theorem whereClause (hds : ∀ d ∈ ds, d.Neat) : (m.whereClause ds).Neat := by
  unfold Mode.whereClause
  split
  · exact empty
  · exact (aboveOrBeside m (ofText (by decide)) (block m _ hds)).nest 2

theorem topLevel (hd : d.Neat) (hds : ∀ d ∈ ds, d.Neat) : (m.topLevel d ds).Neat := by
  unfold Mode.topLevel
  split
  · exact hd.above (vcat hds)
  · exact hd.above (vcat (punctuate hds)).braces
  · exact hd.above (vcat (punctuate hds)).braces
  · exact hd.beside (hsep (punctuate hds)).braces true

end Doc.Neat

/-! ### Calm documents -/

section

variable {d : Doc} {ds : List Doc}

theorem calm_singleton (s : String) : Calm [s] := .singleton s

theorem calm_punctuate (hds : ∀ d ∈ ds, d.Neat) :
    Calm ((punctuate semi ds).flatMap leaves) ↔ ∀ d ∈ ds, Calm d.leaves := by
  rw [Neat.calm_flatMap (Neat.punctuate hds)]
  fun_induction punctuate semi ds with
  | case1 => rfl
  | case2 d => rfl
  | case3 d ds _ ih =>
    obtain ⟨hd, hds⟩ := List.forall_mem_cons.mp hds
    rw [List.forall_mem_cons, List.forall_mem_cons, ih hds, leaves_append, hd.calm_append]
    simp [semi, leaves, calm_singleton]

theorem calm_braces (hd : d.Neat) : Calm d.braces.leaves ↔ Calm d.leaves := by
  show Calm ((lbrace ++ d) ++ rbrace).leaves ↔ _
  rw [leaves_append, leaves_append, List.append_assoc]
  show Calm ("\x7b" :: (d.leaves ++ ["\x7d"])) ↔ _
  rw [calm_cons_of_ne (by decide), hd.calm_append]
  simp [calm_singleton]

/-- The space after an opening brace stands before the first text of what is in the braces. -/
theorem calm_bracesSpace (hd : d.Neat) :
    Calm (space ++ d).braces.leaves ↔ Calm d.leaves ∧ d.leaves.head? ≠ some "" := by
  have hhead : (d.leaves ++ ["\x7d"]).head? ≠ some "" ↔ d.leaves.head? ≠ some "" := by
    cases d.leaves <;> simp
  show Calm ((lbrace ++ (space ++ d)) ++ rbrace).leaves ↔ _
  rw [leaves_append, leaves_append, leaves_append, List.append_assoc, List.append_assoc]
  show Calm ("\x7b" :: " " :: (d.leaves ++ ["\x7d"])) ↔ _
  rw [calm_cons_of_ne (by decide), calm_space_cons, hhead, hd.calm_append, and_comm]
  simp [calm_singleton]

theorem head_punctuate (hds : ∀ d ∈ ds, d.Tidy) :
    ((punctuate semi ds).flatMap leaves).head? ≠ some "" ↔
      ∀ d ∈ ds.head?, d.leaves.head? ≠ some "" := by
  match ds, hds with
  | [], _ => simp [punctuate]
  | [d], _ => simp [punctuate]
  | d :: e :: ds, hds =>
    have hne : d.leaves ≠ [] := (hds d (by simp)).endsSolid.ne_nil
    simp [punctuate, hne]

theorem calm_bracedItems (hds : ∀ d ∈ ds, d.Tidy) (hd : d.Neat)
    (hleaves : d.leaves = (punctuate semi ds).flatMap leaves) :
    Calm (space ++ d).braces.leaves ↔
      (∀ e ∈ ds, Calm e.leaves) ∧ ∀ e ∈ ds.head?, e.leaves.head? ≠ some "" := by
  rw [calm_bracesSpace hd, hleaves, calm_punctuate fun e he => (hds e he).neat, head_punctuate hds]

variable (m : Mode)

theorem calm_clauses (hds : ∀ d ∈ ds, d.Neat) :
    Calm (m.clauses ds).leaves ↔ ∀ d ∈ ds, Calm d.leaves := by
  unfold Mode.clauses
  split
  · rw [leaves_vcat, Neat.calm_flatMap hds]
  · rw [leaves_vcat, calm_punctuate hds]
  · rw [leaves_hsep, calm_punctuate hds]
  · rw [leaves_hsep, calm_punctuate hds]

theorem calm_topLevel (hd : d.Neat) (hds : ∀ d ∈ ds, d.Neat) :
    Calm (m.topLevel d ds).leaves ↔ Calm d.leaves ∧ ∀ d ∈ ds, Calm d.leaves := by
  unfold Mode.topLevel
  split
  · rw [leaves_above, hd.calm_append, leaves_vcat, Neat.calm_flatMap hds]
  · rw [leaves_above, hd.calm_append, calm_braces (.vcat (.punctuate hds)), leaves_vcat,
      calm_punctuate hds]
  · rw [leaves_above, hd.calm_append, calm_braces (.vcat (.punctuate hds)), leaves_vcat,
      calm_punctuate hds]
  · rw [leaves_appendSpace, hd.calm_append, calm_braces (.hsep (.punctuate hds)), leaves_hsep,
      calm_punctuate hds]

theorem calm_block (indent : Nat) (hds : ∀ d ∈ ds, d.Tidy) :
    Calm (m.block indent ds).leaves ↔
      (∀ d ∈ ds, Calm d.leaves) ∧ (m.layout = .offside ∨
        ∀ d ∈ ds.head?, d.leaves.head? ≠ some "") := by
  have hneat : ∀ d ∈ ds, d.Neat := fun d hd => (hds d hd).neat
  have hvcat := calm_bracedItems hds (.vcat (.punctuate hneat)) (leaves_vcat _)
  have hhsep := calm_bracedItems hds (.hsep (.punctuate hneat)) (leaves_hsep _)
  unfold Mode.block
  split
  · next h => simp [h, Neat.calm_flatMap hneat]
  · next h =>
    rw [leaves_nest, hvcat]
    simp [h]
  · next h =>
    rw [hhsep]
    simp [h]
  · next h =>
    rw [hhsep]
    simp [h]

theorem leaves_whereClause (hne : ds ≠ []) :
    (m.whereClause ds).leaves = "where" :: (m.block m.whereIndent ds).leaves := by
  simp [Mode.whereClause, hne, leaves]

end

/-! ### Plans -/

namespace Syntax

/-- The documents of an atom are tidy. -/
def Atom.Tidy (m : Mode) : Atom → Prop
  | .word s => IsSolid s
  | .tree t level => (t.pretty m level).value.Tidy
  | .block items => ∀ t ∈ items, (t.doc m).Tidy

/-- No space stands before an empty text in the documents of an atom. In a block with braces one
stands before the first item. -/
def Atom.Calm (m : Mode) : Atom → Prop
  | .word _ => True
  | .tree t level => Offside.Calm (t.pretty m level).value.leaves
  | .block items =>
    (∀ t ∈ items, Offside.Calm (t.doc m).leaves) ∧
      (m.layout = .offside ∨ ∀ t ∈ items.head?, (t.doc m).leaves.head? ≠ some "")

namespace Sketch

variable {m : Mode}

theorem neat_doc {s : Sketch} (hs : ∀ a ∈ s.atoms, a.Tidy m) : (s.doc m).Neat := by
  induction s using Sketch.inductOn with
  | nothing => exact .empty
  | word s => exact .ofText (hs (.word s) (by simp))
  | tree t level => exact (hs (.tree t level) (by simp) : (t.pretty m level).value.Tidy).neat
  | beside l spaced r ihl ihr =>
    obtain ⟨hl, hr⟩ := List.forall_mem_append.mp hs
    exact (ihl hl).beside (ihr hr) spaced
  | upon u l ihu ihl =>
    obtain ⟨hu, hl⟩ := List.forall_mem_append.mp hs
    exact .aboveOrBeside m (ihu hu) (ihl hl)
  | row arrangement parts ih =>
    rw [atoms_row] at hs
    rw [doc_row]
    apply Neat.row
    rw [List.forall_mem_map]
    exact fun s hmem => ih s hmem fun a ha => hs a (List.mem_flatMap.mpr ⟨s, hmem, ha⟩)
  | clauses items =>
    apply Neat.clauses
    rw [List.forall_mem_map]
    exact fun t ht => (hs (.tree t 0) (List.mem_map_of_mem ht) : (t.doc m).Tidy).neat
  | block indent items =>
    have hitems : ∀ t ∈ items, (t.doc m).Tidy := hs (.block items) (by simp)
    apply Neat.block
    rw [List.forall_mem_map]
    exact fun t ht => (hitems t ht).neat
  | wheres items =>
    apply Neat.whereClause
    rw [List.forall_mem_map]
    intro t ht
    have hitems : ∀ t ∈ items, (t.doc m).Tidy := hs (.block items) (by simp [List.ne_nil_of_mem ht])
    exact (hitems t ht).neat
  | topLevel keyword header items ih =>
    rw [atoms_topLevel, List.cons_append, List.forall_mem_cons, List.forall_mem_append] at hs
    obtain ⟨hkeyword, hheader, hitems⟩ := hs
    rw [doc_topLevel]
    apply Neat.topLevel
    · apply Neat.row m .sepFirst
      rw [List.forall_mem_cons, List.forall_mem_map]
      exact ⟨.ofText hkeyword, fun s hmem => ih s hmem fun a ha =>
        hheader a (List.mem_flatMap.mpr ⟨s, hmem, ha⟩)⟩
    · rw [List.forall_mem_map]
      exact fun t ht => (hitems (.tree t 0) (List.mem_map_of_mem ht) : (t.doc m).Tidy).neat

theorem calm_doc {s : Sketch} (hs : ∀ a ∈ s.atoms, a.Tidy m) :
    Offside.Calm (s.doc m).leaves ↔ ∀ a ∈ s.atoms, a.Calm m := by
  induction s using Sketch.inductOn with
  | nothing => simp [leaves, Offside.Calm]
  | word s => simp [leaves, Offside.Calm, Atom.Calm]
  | tree t level => simp [Atom.Calm]
  | beside l spaced r ihl ihr =>
    obtain ⟨hl, hr⟩ := List.forall_mem_append.mp hs
    rw [doc, leaves_beside, (neat_doc hl).calm_append, ihl hl, ihr hr, atoms,
      List.forall_mem_append]
  | upon u l ihu ihl =>
    obtain ⟨hu, hl⟩ := List.forall_mem_append.mp hs
    rw [doc, Mode.leaves_aboveOrBeside, (neat_doc hu).calm_append, ihu hu, ihl hl, atoms,
      List.forall_mem_append]
  | row arrangement parts ih =>
    rw [atoms_row] at hs ⊢
    have hparts : ∀ s ∈ parts, ∀ a ∈ s.atoms, a.Tidy m :=
      fun s hmem a ha => hs a (List.mem_flatMap.mpr ⟨s, hmem, ha⟩)
    have hneat : ∀ d ∈ parts.map (doc m), d.Neat :=
      List.forall_mem_map.mpr fun s hmem => neat_doc (hparts s hmem)
    rw [doc_row, Mode.leaves_row, Neat.calm_flatMap hneat, List.forall_mem_map,
      List.forall_mem_flatMap]
    exact forall₂_congr fun s hmem => ih s hmem (hparts s hmem)
  | clauses items =>
    have hneat : ∀ d ∈ items.map (Node.doc m), d.Neat := List.forall_mem_map.mpr fun t ht =>
      (hs (.tree t 0) (List.mem_map_of_mem ht) : (t.doc m).Tidy).neat
    rw [doc_clauses, calm_clauses m hneat, List.forall_mem_map, atoms_clauses, List.forall_mem_map]
    rfl
  | block indent items =>
    have hitems : ∀ t ∈ items, (t.doc m).Tidy := hs (.block items) (by simp)
    rw [doc_block, calm_block m (indent m) (List.forall_mem_map.mpr hitems)]
    simp [Atom.Calm]
  | wheres items =>
    cases items with
    | nil => simp [Mode.whereClause, leaves, Offside.Calm]
    | cons t ts =>
      have hitems : ∀ c ∈ t :: ts, (c.doc m).Tidy := hs (.block (t :: ts)) (by simp)
      rw [doc_wheres, leaves_whereClause m (by simp), calm_cons_of_ne (by decide),
        calm_block m _ (List.forall_mem_map.mpr hitems)]
      simp [Atom.Calm]
  | topLevel keyword header items ih =>
    rw [atoms_topLevel, List.cons_append, List.forall_mem_cons, List.forall_mem_append] at hs
    obtain ⟨hkeyword, hheader, hitems⟩ := hs
    have hparts : ∀ s ∈ header, ∀ a ∈ s.atoms, a.Tidy m := fun s hmem a ha =>
      hheader a (List.mem_flatMap.mpr ⟨s, hmem, ha⟩)
    have hneat : ∀ d ∈ .text keyword :: header.map (doc m), d.Neat := by
      rw [List.forall_mem_cons, List.forall_mem_map]
      exact ⟨.ofText hkeyword, fun s hmem => neat_doc (hparts s hmem)⟩
    have hmembers : ∀ d ∈ items.map (Node.doc m), d.Neat := List.forall_mem_map.mpr fun t ht =>
      (hitems (.tree t 0) (List.mem_map_of_mem ht) : (t.doc m).Tidy).neat
    have hrow : Offside.Calm (m.sepFirst (.text keyword :: header.map (doc m))).leaves ↔
        ∀ a ∈ header.flatMap atoms, a.Calm m := by
      show Offside.Calm (Row.sepFirst.doc m (.text keyword :: header.map (doc m))).leaves ↔ _
      rw [Mode.leaves_row, Neat.calm_flatMap hneat, List.forall_mem_cons, List.forall_mem_map,
        List.forall_mem_flatMap]
      simp only [leaves, calm_singleton, true_and]
      exact forall₂_congr fun s hmem => ih s hmem (hparts s hmem)
    have hneatRow : (m.sepFirst (.text keyword :: header.map (doc m))).Neat :=
      .row m .sepFirst hneat
    rw [doc_topLevel, calm_topLevel m hneatRow hmembers, hrow, List.forall_mem_map, atoms_topLevel,
      List.cons_append, List.forall_mem_cons, List.forall_mem_append, List.forall_mem_map]
    simp [Atom.Calm, Node.doc]

end Sketch

/-! ### Words -/

theorem isSolid_of_forall {s : String} (hne : s ≠ "")
    (hs : ∀ c ∈ s.toList, isBlank c = false) : IsSolid s := by
  have hlist : s.toList ≠ [] := by simpa using hne
  refine ⟨⟨hne, fun h => absurd (hs _ h) (by decide)⟩, ?_⟩
  rw [List.getLast?_eq_some_getLast hlist]
  simpa using hs _ (List.getLast_mem hlist)

theorem isBlank_of_all {cs : List Char} (h : cs.all (fun c => !isBlank c) = true) :
    ∀ c ∈ cs, isBlank c = false := by
  simpa using h

theorem isBlank_toDigits (n : Nat) : ∀ c ∈ Nat.toDigits 10 n, isBlank c = false := fun _ hc =>
  isBlank_of_isDigit (Nat.isDigit_of_mem_toDigits (by decide) (by decide) hc)

theorem isBlank_decimalText (n : Int) : ∀ c ∈ (decimalText n).toList, isBlank c = false := by
  unfold decimalText
  split
  · rw [String.toList_ofList, List.forall_mem_cons]
    exact ⟨by decide, isBlank_toDigits _⟩
  · rw [String.toList_ofList]
    exact isBlank_toDigits _

theorem isBlank_orZero {cs : List Char} (hcs : ∀ c ∈ cs, isBlank c = false) :
    ∀ c ∈ orZero cs, isBlank c = false := by
  unfold orZero
  split
  · exact isBlank_of_all (by decide)
  · exact hcs

theorem isBlank_magnitudeText {digits : List Char}
    (hdigits : ∀ c ∈ digits, isBlank c = false) (e : Int32) :
    ∀ c ∈ magnitudeText digits e, isBlank c = false := by
  have htake : ∀ n, ∀ c ∈ digits.take n, isBlank c = false :=
    fun n c hc => hdigits c (List.mem_of_mem_take hc)
  have hdrop : ∀ n, ∀ c ∈ digits.drop n, isBlank c = false :=
    fun n c hc => hdigits c (List.mem_of_mem_drop hc)
  have hzeros : ∀ n, ∀ c ∈ List.replicate n '0', isBlank c = false := fun n c hc => by
    rw [List.eq_of_mem_replicate hc]
    decide
  unfold magnitudeText
  split
  · simp only [positional, List.forall_mem_append, List.forall_mem_cons]
    exact ⟨isBlank_orZero (List.forall_mem_append.mpr ⟨htake _, hzeros _⟩), by decide,
      isBlank_orZero (hdrop _)⟩
  · simp only [scientific, List.forall_mem_append, List.forall_mem_cons]
    exact ⟨⟨htake 1, by decide, isBlank_orZero (hdrop 1)⟩, by decide, isBlank_decimalText _⟩

theorem isBlank_realText {f : Format} (x : Binary f) :
    ∀ c ∈ (realText x).toList, isBlank c = false := by
  have hsign : ∀ negative, ∀ c ∈ (showReal.sign negative).toList, isBlank c = false :=
    fun negative =>
    isBlank_of_all (by cases negative <;> decide)
  cases x with
  | nan => exact isBlank_of_all (by decide : "NaN".toList.all (fun c => !isBlank c) = true)
  | infinite negative =>
    have hreal : realText (.infinite negative : Binary f) = showReal.sign negative ++ "Infinity" :=
      rfl
    rw [hreal, String.toList_append, List.forall_mem_append]
    exact ⟨hsign negative, isBlank_of_all (by decide)⟩
  | finite negative significand exponent =>
    by_cases hzero : significand = 0
    · rw [hzero, realText_zero, String.toList_append, List.forall_mem_append]
      exact ⟨hsign negative, isBlank_of_all (by decide)⟩
    · obtain ⟨e, he⟩ := realText_finite negative hzero exponent
      rw [he, String.toList_append, List.forall_mem_append, String.toList_ofList]
      exact ⟨hsign negative, isBlank_magnitudeText (isBlank_toDigits _) _⟩

/-- The printer's own words do not end in a blank. -/
theorem phrasing_isSolid : Phrasing IsSolid where
  own := by
    rintro s (hs | c | s | n | x | con | ⟨line, file⟩)
    · exact (by decide : ∀ s ∈ signs, IsSolid s) _ hs
    · refine ⟨isWord_charLiteral c, ?_⟩
      unfold charLiteral
      split
      · decide
      · rw [String.toList_ofList, List.getLast?_concat]
        decide
    · refine ⟨isWord_stringLiteral s, ?_⟩
      rw [stringLiteral, String.toList_ofList, List.getLast?_concat]
      decide
    · exact isSolid_of_forall (isWord_decimalText n).1 (isBlank_decimalText n)
    · exact isSolid_of_forall (isWord_realText x).1 (isBlank_realText x)
    · refine ⟨isWord_special con, ?_⟩
      cases con with
      | tuple arity =>
        rw [SpecialCon.text, String.toList_ofList, List.getLast?_concat]
        decide
      | _ => decide
    · refine ⟨isWord_linePragma line file, ?_⟩
      rw [String.toList_append, List.getLast?_append_of_ne_nil _ (by decide)]
      decide
  dotted := by
    rintro s ⟨hs, -⟩
    refine ⟨hs.append (by decide), ?_⟩
    rw [String.toList_append, List.getLast?_append_of_ne_nil _ (by decide)]
    decide

/-! ### Trees -/

section

variable {m : Mode} {d : Doc}

theorem isSolid_linePragma (line : Int) (file : String) :
    IsSolid ("\x7b-# LINE " ++ decimalText line ++ " " ++ stringLiteral file ++ " #-\x7d") :=
  phrasing_isSolid.own _ (.pragma line file)

theorem neat_markLine (hd : d.Neat) (loc : Location) : (m.markLine loc d).Neat := by
  unfold Mode.markLine
  split
  · exact hd
  · split
    · exact (Neat.ofText (isSolid_linePragma _ _)).above hd
    · exact (Neat.ofText (isSolid_linePragma _ _)).beside hd true

theorem calm_markLine (d : Doc) (loc : Location) :
    Offside.Calm (m.markLine loc d).leaves ↔ Offside.Calm d.leaves := by
  unfold Mode.markLine
  split
  · rfl
  · split
    · rw [leaves_above]
      exact calm_cons_of_ne (isSolid_linePragma _ _).ne_space _
    · rw [leaves_appendSpace]
      exact calm_cons_of_ne (isSolid_linePragma _ _).ne_space _

end

namespace Node

variable {m : Mode} {t : Node} {d : Doc} {w : String}

theorem tidy_introduce (hd : d.Neat) (hbegins : d.Begins w) (hw : IsSolid w) :
    (t.introduce m d).Tidy := by
  obtain ⟨_, hmarked, -⟩ := begins_marked phrasing_isSolid hbegins hw m t
  have hneat : (t.mark?.elim d fun loc => m.markLine loc d).Neat := by
    cases t.mark? with
    | none => exact hd
    | some loc => exact neat_markLine hd loc
  have htidy := hneat.tidy hmarked.isEmpty
  unfold introduce Mode.blankLine
  split
  · split
    · rw [above, stack, hmarked.isEmpty]
      exact .blankLine hmarked.lead htidy
    · exact htidy
  · exact htidy

theorem calm_introduce (d : Doc) :
    Offside.Calm (t.introduce m d).leaves ↔ Offside.Calm d.leaves := by
  have hmarked : Offside.Calm (t.mark?.elim d fun loc => m.markLine loc d).leaves ↔
      Offside.Calm d.leaves := by
    cases t.mark? with
    | none => rfl
    | some loc => exact calm_markLine d loc
  unfold introduce Mode.blankLine
  split
  · split
    · rw [leaves_above, ← hmarked]
      exact calm_cons_of_ne (by decide) _
    · exact hmarked
  · exact hmarked

/-- The first item of the tree's block is a declaration before which an empty line goes where the
mode asks for it. -/
def OpensSpaced (t : Node) : Prop := t.isModule = false ∧ ∃ i ∈ t.items.head?, i.isSpaced = true

/-- The atoms of a tree's plan are tidy if the trees below it are. -/
theorem tidy_atoms (hw : t.Worded IsSolid)
    (hbelow : ∀ c ∈ t.children, ∀ level, (c.pretty m level).value.Tidy) (level : Nat) :
    ∀ a ∈ (t.sketch level).atoms, a.Tidy m := by
  intro a ha
  have hbelongs := hw.belongs phrasing_isSolid level a ha
  cases a with
  | word s => exact hbelongs
  | tree c level => exact hbelow c hbelongs level
  | block items =>
    obtain ⟨rfl, -⟩ := hbelongs
    exact fun c hc => hbelow c (mem_children_of_items hc) 0

theorem WellFormed.tidy (ht : t.WellFormed) (hw : t.Worded IsSolid) (m : Mode) (level : Nat) :
    (t.pretty m level).value.Tidy := by
  induction t using Node.inductOn generalizing level with
  | step t ih =>
    obtain ⟨hlack, hbelow⟩ := wellFormed_iff.mp ht
    rw [List.forall_iff_forall_mem] at hbelow
    have htidy : ∀ c ∈ t.children, ∀ level, (c.pretty m level).value.Tidy := fun c hc =>
      ih c hc (hbelow c hc) (hw.child hc)
    have hbegins : ∀ c ∈ t.children, ∀ level, ∃ w, (c.pretty m level).value.Begins w ∧
        if c.isSpaced && m.spaces then w = "" else IsSolid w := fun c hc =>
      (hbelow c hc).begins phrasing_isSolid (hw.child hc) m
    obtain ⟨w, hbegins, hsolid⟩ := begins_sketch phrasing_isSolid hlack hw hbegins level
    rw [value_pretty m hlack level]
    exact tidy_introduce (Sketch.neat_doc (tidy_atoms hw htidy level)) hbegins hsolid

/-- A tree starts with an empty text if it is a declaration before which an empty line goes. -/
theorem WellFormed.starts_blank_iff (ht : t.WellFormed) (hw : t.Worded IsSolid) (m : Mode)
    (level : Nat) :
    (t.pretty m level).value.leaves.head? = some "" ↔ t.isSpaced = true ∧ m.spaces = true := by
  obtain ⟨w, hbegins, hif⟩ := ht.begins phrasing_isSolid hw m level
  rw [hbegins.head, Option.some.injEq, ← Bool.and_eq_true]
  split at hif
  · next hspaced => exact iff_of_true hif hspaced
  · next hspaced => exact iff_of_false hif.1.1 hspaced

/-- In a calm plan the pieces of code below the tree are calm. -/
theorem exists_calm_of_atoms {c : Node} {level : Nat}
    (hatoms : ∀ a ∈ (t.sketch level).atoms, a.Calm m) (hc : c ∈ t.children)
    (hcode : c.isCode = true) : ∃ level, Offside.Calm (c.pretty m level).value.leaves := by
  rcases shows_or_mem_block hc hcode level with ⟨l, hshows⟩ | ⟨hblock, hitem⟩
  · exact ⟨l, hatoms _ hshows⟩
  · exact ⟨0, (hatoms _ hblock).1 c hitem⟩

/-- The space after an opening brace stands before an empty text exactly in the blocks that open
with such a declaration. -/
theorem WellFormed.calm_iff (ht : t.WellFormed) (hw : t.Worded IsSolid) (m : Mode) (level : Nat) :
    Offside.Calm (t.pretty m level).value.leaves ↔
      (m.layout ≠ .offside ∧ m.spaces = true → ∀ s : Node, s.Inside t → ¬ s.OpensSpaced) := by
  induction t using Node.inductOn generalizing level with
  | step t ih =>
    obtain ⟨hlack, hbelow⟩ := wellFormed_iff.mp ht
    rw [List.forall_iff_forall_mem] at hbelow
    have htidy : ∀ c ∈ t.children, ∀ level, (c.pretty m level).value.Tidy := fun c hc =>
      (hbelow c hc).tidy (hw.child hc) m
    have hfirst : ∀ i ∈ t.items.head?, (i.doc m).leaves.head? = some "" ↔
        i.isSpaced = true ∧ m.spaces = true := by
      intro i hi
      have hchild : i ∈ t.children := mem_children_of_items (List.mem_of_mem_head? hi)
      exact (hbelow i hchild).starts_blank_iff (hw.child hchild) m 0
    have hcalm : ∀ c ∈ t.children, ∀ level, Offside.Calm (c.pretty m level).value.leaves ↔
        (m.layout ≠ .offside ∧ m.spaces = true → ∀ s : Node, s.Inside c → ¬ s.OpensSpaced) :=
          fun c hc =>
      ih c hc (hbelow c hc) (hw.child hc)
    rw [value_pretty m hlack level, calm_introduce, Sketch.calm_doc (tidy_atoms hw htidy level)]
    constructor
    · rintro hatoms ⟨hlayout, hspaces⟩ s hs ⟨hmodule, i, hi, hspaced⟩
      have hne : s.items ≠ [] := List.ne_nil_of_mem (List.mem_of_mem_head? hi)
      cases hs with
      | here =>
        obtain ⟨-, hoffside | hhead⟩ := hatoms _ (block_mem_atoms hne hmodule level)
        · exact hlayout hoffside
        · exact hhead i hi ((hfirst i hi).mpr ⟨hspaced, hspaces⟩)
      | child hc hs =>
        obtain ⟨l, hquiet⟩ :=
          exists_calm_of_atoms hatoms hc (isCode_of_inside hs (isCode_of_items hne))
        exact (hcalm _ hc l).mp hquiet ⟨hlayout, hspaces⟩ s hs ⟨hmodule, i, hi, hspaced⟩
    · intro hnone a ha
      have hquiet : ∀ c ∈ t.children, ∀ level, Offside.Calm (c.pretty m level).value.leaves :=
        fun c hc l =>
        (hcalm c hc l).mpr fun hm s hs => hnone hm s (.child hc hs)
      have hbelongs := hw.belongs phrasing_isSolid level a ha
      cases a with
      | word s => trivial
      | tree c l => exact hquiet c hbelongs l
      | block items =>
        obtain ⟨rfl, hmodule⟩ := hbelongs
        refine ⟨fun c hc => hquiet c (mem_children_of_items hc) 0, ?_⟩
        by_cases hlayout : m.layout = .offside
        · exact .inl hlayout
        · refine .inr fun i hi hhead => ?_
          obtain ⟨hspaced, hspaces⟩ := (hfirst i hi).mp hhead
          exact hnone ⟨hlayout, hspaces⟩ t .here ⟨hmodule, i, hi, hspaced⟩

end Node

theorem spaces_in_braces_iff (m : Mode) :
    m.layout ≠ .offside ∧ m.spaces = true ↔
      m.spacing = true ∧ (m.layout = .semicolon ∨ m.layout = .inline) := by
  cases h : m.layout <;> simp [Mode.spaces, h]

/-- A printed line that holds nothing but blanks is empty. One that ends in a blank ends in an
opening brace and a space, and there is such a line exactly if the page may have several lines, the
mode puts empty lines into blocks with braces, and a block opens with a declaration that binds
nothing. -/
theorem lines_end_in_blank_before_spaced_item {t : Node} (ht : t.WellFormed)
    (hwords : t.Worded fun w => w ≠ "" ∧ ∀ c ∈ w.toList, isBlank c = false) (m : Mode)
    (style : Style) (level : Nat) :
    ∃ text, t.print style m level = .ok text ∧
      (∀ line ∈ text.toList.splitOn '\n', (∀ c ∈ line, isBlank c = true) → line = []) ∧
      (∀ line ∈ text.toList.splitOn '\n', EndsClean line ∨ EndsOpen line) ∧
      ((∃ line ∈ text.toList.splitOn '\n', ¬ EndsClean line) ↔
        style.discipline ≠ .oneLine ∧ m.spacing = true ∧
        (m.layout = .semicolon ∨ m.layout = .inline) ∧
          ∃ s : Node, s.Inside t ∧ s.OpensSpaced) := by
  have hsolid : t.Worded IsSolid := Node.everywhere_iff.mpr fun s hs w hw =>
    have hword := Node.everywhere_iff.mp hwords s hs w hw
    isSolid_of_forall hword.1 hword.2
  obtain ⟨hends, hopen⟩ := (ht.tidy hsolid m level).lines_render style
  refine ⟨_, ht.print_eq style m level, fun line hline =>
    eq_nil_of_blank (hends line hline), hends, ?_⟩
  have hnotClean : ∀ line ∈ ((t.pretty m level).value.render style).toList.splitOn '\n',
      ¬ EndsClean line ↔ EndsOpen line := fun line hline =>
    ⟨(hends line hline).resolve_left, EndsOpen.not_clean⟩
  have hexists :
      (∃ line ∈ ((t.pretty m level).value.render style).toList.splitOn '\n', ¬ EndsClean line) ↔
      ∃ line ∈ ((t.pretty m level).value.render style).toList.splitOn '\n', EndsOpen line :=
    exists_congr fun line => and_congr_right (hnotClean line)
  rw [hexists, hopen, ht.calm_iff hsolid, spaces_in_braces_iff, Classical.not_imp, and_assoc]
  simp only [not_forall, not_not, exists_prop]

theorem let_with_signature_leaves_blank :
    let t := Node.expr (.letIn [.signature [.ident "f"] (.ofVar "a")] .wildcard)
    let m : Mode := { layout := .inline }
    t.WellFormed ∧ t.Worded (fun w => w ≠ "" ∧ ∀ c ∈ w.toList, isBlank c = false) ∧
      ∃ text, t.print {} m 0 = .ok text ∧ ∃ line ∈ text.toList.splitOn '\n', ¬ EndsClean line := by
  intro t m
  have ht : t.WellFormed := by
    simp [t, Node.wellFormed_iff, Node.children, Expr.children, Decl.signature, Decl.children,
      Ty.ofVar, QualType.ofTy, Ty.children]
  have hwords : t.Worded fun w => w ≠ "" ∧ ∀ c ∈ w.toList, isBlank c = false := by
    have hletters : isBlank 'a' = false ∧ isBlank 'f' = false := by decide
    simp [t, Node.worded_iff, Node.words, Node.children, Expr.children, Decl.signature,
      Decl.children, Ty.ofVar, QualType.ofTy, Ty.children, hletters]
  obtain ⟨text, hprint, -, -, hiff⟩ := lines_end_in_blank_before_spaced_item ht hwords m {} 0
  exact ⟨ht, hwords, text, hprint, hiff.mpr ⟨by decide, rfl, .inr rfl, t, .here, rfl, _, rfl, rfl⟩⟩

/-- A class whose first member is a signature: the line of its opening brace ends in a space. -/
theorem brace_before_signature_ends_in_space :
    let t :=
      Node.decl (.classDecl .unknown [] (.ident "C") [.ident "a"]
        [.signature [.ident "f"] (.ofVar "a")])
    t.WellFormed ∧ t.Worded (fun w => w ≠ "" ∧ ∀ c ∈ w.toList, isBlank c = false) ∧
      t.print {} { layout := .semicolon } 0 =
      .ok "\nclass C a where\n        \x7b \n          f :: a\x7d" ∧
      t.print {} { layout := .inline } 0 =
      .ok "\nclass C a where \x7b \n                  f :: a\x7d" := by
  intro t
  refine ⟨?_, ?_, by decide +kernel, by decide +kernel⟩
  · simp [t, Node.wellFormed_iff, Node.children, Decl.signature, Decl.children, Ty.ofVar,
      QualType.ofTy, Ty.children]
  · have hletters : isBlank 'C' = false ∧ isBlank 'a' = false ∧ isBlank 'f' = false := by decide
    simp [t, Node.worded_iff, Node.words, Node.children, Decl.signature, Decl.children, Ty.ofVar,
      QualType.ofTy, Ty.children, hletters]

end Syntax

end Offside
