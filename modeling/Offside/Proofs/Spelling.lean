import Offside.Pretty.Block
import Offside.Proofs.Compositional
import Offside.Proofs.Occurrence

/-!
# The text of a document up to its gaps

Where no leaf is empty and all groups have spaces between their members, every gap that a layout
leaves is at least one space or line break. So if each run of spaces and line breaks is read as one
space, the text of a document is the same in every style: its leaves, with a space wherever the
document allows one.
-/
namespace Offside

open Doc

/-- The space that a gap is read as. -/
def gapText (gap : Bool) : List Char := if gap then [' '] else []

namespace Chunk

/-- The text of the pieces with one space for each run of spaces and line breaks. There is a run
before the first piece if `gap`. -/
def squeezeFrom (gap : Bool) : List Chunk → List Char
  | [] => gapText gap
  | .text s :: cs => gapText gap ++ s.toList ++ squeezeFrom false cs
  | _ :: cs => squeezeFrom true cs

def squeezed (cs : List Chunk) : List Char := squeezeFrom false cs

end Chunk

open Chunk

mutual

/-- The text of a document with one space for each gap. -/
def Doc.spelling : Doc → List Char
  | .empty => []
  | .text s => s.toList
  | .nested _ d => d.spelling
  | .joined l spaced r => l.spelling ++ gapText spaced ++ r.spelling
  | .stacked u _ l => u.spelling ++ ' ' :: l.spelling
  | .grouped _ _ [] => []
  | .grouped _ _ (m :: ms) => m.spelling ++ Doc.spellingMore ms

/-- Further members of a group, each after a gap. -/
def Doc.spellingMore : List Doc → List Char
  | [] => []
  | d :: ds => ' ' :: d.spelling ++ Doc.spellingMore ds

end

/-- No leaf is empty, and the members of every group have spaces between them. -/
inductive Doc.Inked : Doc → Prop where
  | text {s : String} (hs : s ≠ "") : Inked (.text s)
  | nested {k : Int} {d : Doc} (hd : Inked d) : Inked (.nested k d)
  | joined {l r : Doc} {spaced : Bool} (hl : Inked l) (hr : Inked r) : Inked (.joined l spaced r)
  | stacked {u l : Doc} {overlap : Bool} (hu : Inked u) (hl : Inked l) :
      Inked (.stacked u overlap l)
  | grouped {fill : Bool} {m : Doc} {ms : List Doc} (hm : Inked m) (hms : ∀ d ∈ ms, Inked d) :
      Inked (.grouped fill true (m :: ms))

/-! ### Layouts -/

/-- The text that was written after `owed` spaces, read with one space for each run of gaps. -/
structure Laid.Wrote (owed : Nat) (cs : List Char) (x : Laid) : Prop where
  owed_eq : x.1.owed = 0
  text_eq : ∀ gap rest, squeezeFrom gap (x.2 ++ rest) =
    gapText (gap || 0 < owed) ++ cs ++ squeezeFrom false rest

/-- The text that was written right after another. -/
structure Laid.WroteOn (cs : List Char) (x : Laid) : Prop where
  owed_eq : x.1.owed = 0
  text_eq : ∀ rest, squeezeFrom false (x.2 ++ rest) = cs ++ squeezeFrom false rest

namespace Laid

variable {x : Laid} {owed : Nat} {cs ds : List Char}

theorem Wrote.andThen {f : Cursor → Laid} (hx : x.Wrote owed cs)
    (hf : ∀ c, c.owed = 0 → (f c).WroteOn ds) : (x.andThen f).Wrote owed (cs ++ ds) := by
  have hnext := hf x.1 hx.owed_eq
  refine ⟨hnext.owed_eq, fun gap rest => ?_⟩
  rw [andThen_snd, List.append_assoc, hx.text_eq, hnext.text_eq]
  simp

theorem WroteOn.andThen {f : Cursor → Laid} (hx : x.WroteOn cs)
    (hf : ∀ c, c.owed = 0 → (f c).WroteOn ds) : (x.andThen f).WroteOn (cs ++ ds) := by
  have hnext := hf x.1 hx.owed_eq
  refine ⟨hnext.owed_eq, fun rest => ?_⟩
  rw [andThen_snd, List.append_assoc, hx.text_eq, hnext.text_eq, List.append_assoc]

theorem WroteOn.nil {c : Cursor} (hc : c.owed = 0) : WroteOn [] (c, []) := ⟨hc, fun _ => rfl⟩

theorem Wrote.wroteOn (hx : x.Wrote owed cs) : x.WroteOn (gapText (0 < owed) ++ cs) :=
  ⟨hx.owed_eq, fun rest => by simpa using hx.text_eq false rest⟩

/-- Whichever way the cursor goes below, it leaves a gap. -/
theorem WroteOn.below {f : Cursor → Laid} (hf : ∀ c, (f c).Wrote c.owed cs)
    (discipline : Discipline) (indent : Int) (overlap : Bool) (d : Doc) (c : Cursor) :
    WroteOn (' ' :: cs) (Laid.andThen (c.below discipline indent overlap d) f) := by
  refine ⟨(hf _).owed_eq, fun rest => ?_⟩
  rw [andThen_snd, List.append_assoc]
  unfold Cursor.below Cursor.newline
  dsimp only
  split_ifs with h
  · have hroom : 0 < c.owed + (indent + d.lead - c.column).toNat := by
      simp only [Bool.and_eq_true, decide_eq_true_eq] at h
      omega
    simp [(hf _).text_eq, Cursor.advance, hroom, gapText]
  · cases discipline <;> simp [squeezeFrom, (hf _).text_eq, gapText]

end Laid

open Laid

theorem wrote_write {s : String} (hs : s ≠ "") (c : Cursor) :
    Wrote c.owed s.toList (c.write s) := by
  unfold Cursor.write
  rw [if_neg (by simpa using hs)]
  by_cases hc : c.owed = 0
  · rw [if_pos hc]
    exact ⟨hc, fun gap rest => by simp [squeezeFrom, hc]⟩
  · rw [if_neg hc]
    exact ⟨rfl, fun gap rest => by simp [squeezeFrom, gapText, Nat.pos_of_ne_zero hc]⟩

/-- The document is written as it is spelled, wherever it stands. -/
def Doc.Faithful (limits : Limits) (d : Doc) : Prop :=
  ∀ follow indent fit c, (d.lay limits follow indent fit c).Wrote c.owed d.spelling

section

variable {limits : Limits} {ds : List Doc} (hds : ∀ d ∈ ds, d.Faithful limits)
include hds

theorem wroteOn_layFlat (follow : Nat) {c : Cursor} (hc : c.owed = 0) :
    (layFlat limits follow true ds c).WroteOn (spellingMore ds) := by
  induction ds generalizing c with
  | nil => exact .nil hc
  | cons d ds ih =>
    obtain ⟨hd, hds⟩ := List.forall_mem_cons.mp hds
    have hwrote := (hd (aheadAll true follow ds) 0 .flat (c.skip true)).wroteOn
    rw [layFlat, spellingMore]
    exact WroteOn.andThen (by simpa [Cursor.skip, Cursor.advance, gapText] using hwrote)
      fun c hc => ih hds hc

theorem wroteOn_layBelow (follow : Nat) (indent : Int) {c : Cursor} (hc : c.owed = 0) :
    (layBelow limits follow indent ds c).WroteOn (spellingMore ds) := by
  induction ds generalizing c with
  | nil => exact .nil hc
  | cons d ds ih =>
    obtain ⟨hd, hds⟩ := List.forall_mem_cons.mp hds
    rw [layBelow, spellingMore]
    exact .below (fun c => (hd _ _ _ c).andThen fun c hc => ih hds hc) ..

theorem wroteOn_layFill (follow : Nat) (indent : Int) (startLine : Nat) {c : Cursor}
    (hc : c.owed = 0) :
    (layFill limits follow indent true startLine ds c).WroteOn (spellingMore ds) := by
  induction ds generalizing c startLine with
  | nil => exact .nil hc
  | cons d ds ih =>
    obtain ⟨hd, hds⟩ := List.forall_mem_cons.mp hds
    rw [layFill, spellingMore]
    split
    · have hwrote := (hd (followLast follow ds) indent .flat (c.skip true)).wroteOn
      exact WroteOn.andThen (by simpa [Cursor.skip, Cursor.advance, gapText] using hwrote)
        fun c' hc' => ih hds _ hc'
    · exact .below (fun c => (hd _ _ _ c).andThen fun c' hc => ih hds c.line hc) ..

end

theorem Doc.Inked.faithful (limits : Limits) {d : Doc} (hd : d.Inked) : d.Faithful limits := by
  induction hd with
  | text hs => exact fun follow indent fit c => wrote_write hs c
  | nested _ ih => exact fun follow indent fit c => ih follow _ fit c
  | @joined l r spaced _ _ ihl ihr =>
    intro follow indent fit c
    rw [lay, spelling, List.append_assoc]
    refine (ihl _ indent fit c).andThen fun c hc => ?_
    have hwrote := (ihr follow ((c.skip spaced).column - r.lead) fit (c.skip spaced)).wroteOn
    cases spaced with
    | false => simpa [Cursor.skip, hc] using hwrote
    | true => simpa [Cursor.skip, Cursor.advance, hc] using hwrote
  | stacked _ _ ihu ihl =>
    intro follow indent fit c
    rw [lay, spelling]
    exact (ihu _ indent .broken c).andThen fun c _ => .below (fun c => ihl _ _ _ c) ..
  | grouped _ _ ihm ihms =>
    intro follow indent fit c
    rw [lay, spelling]
    split_ifs
    · exact (ihm _ _ _ c).andThen fun c hc => wroteOn_layFlat ihms follow hc
    · exact (ihm _ _ _ c).andThen fun c hc => wroteOn_layFill ihms follow indent _ hc
    · exact (ihm _ _ _ c).andThen fun c hc => wroteOn_layBelow ihms follow indent hc

/-- In every style the document is written as it is spelled. -/
theorem Doc.Inked.squeezed_chunks {d : Doc} (hd : d.Inked) (hlead : d.lead = 0) (style : Style) :
    squeezed (d.chunks style) = d.spelling := by
  have hwrote := hd.faithful style.limits 0 0 .broken (.start style.discipline d)
  have hstart : (Cursor.start style.discipline d).owed = 0 := by simp [Cursor.start, hlead]
  rw [chunks_eq_lay, squeezed, ← List.append_nil (d.lay _ _ _ _ _).2, hwrote.text_eq, hstart]
  simp [gapText, squeezeFrom]

/-! ### Combinators -/

/-- The document starts at the margin and is written with this text in every style. -/
structure Doc.Spells (d : Doc) (cs : List Char) : Prop where
  inked : d.Inked
  lead_eq : d.lead = 0
  spelling_eq : d.spelling = cs

theorem Doc.Spells.squeezed_chunks {d : Doc} {cs : List Char} (hd : d.Spells cs) (style : Style) :
    squeezed (d.chunks style) = cs := by
  rw [hd.inked.squeezed_chunks hd.lead_eq, hd.spelling_eq]

namespace Doc

theorem Inked.ne_empty {d : Doc} (hd : d.Inked) : d ≠ .empty := by
  rintro rfl
  cases hd

theorem Inked.nest {d : Doc} (hd : d.Inked) (k : Int) : (d.nest k).Inked := by
  unfold Doc.nest
  split_ifs
  · exact hd
  · exact .nested hd

theorem Inked.lead_nest {d : Doc} (hd : d.Inked) (k : Int) : (d.nest k).lead = k + d.lead := by
  by_cases hk : k = 0
  · simp [Doc.nest, hk]
  · rw [nest_of_ne hd.ne_empty hk, lead]

theorem spelling_nest (d : Doc) (k : Int) : (d.nest k).spelling = d.spelling := by
  unfold Doc.nest
  split_ifs
  · rfl
  · rw [spelling]

theorem filter_inked {ds : List Doc} (hds : ∀ d ∈ ds, d.Inked) :
    (ds.filter fun d => !d.isEmpty) = ds := by
  rw [List.filter_eq_self]
  intro d hd
  simp [isEmpty_of_ne (hds d hd).ne_empty]

/-- A group of one member is the member; of more it is spelled with spaces between them. -/
theorem inked_group {d : Doc} {ds : List Doc} (hd : d.Inked) (hds : ∀ e ∈ ds, e.Inked)
    (fill : Bool) :
    (group fill true (d :: ds)).Inked ∧ (group fill true (d :: ds)).lead = d.lead ∧
      (group fill true (d :: ds)).spelling = d.spelling ++ spellingMore ds := by
  unfold group
  rw [filter_inked (List.forall_mem_cons.mpr ⟨hd, hds⟩)]
  cases ds with
  | nil => simp [hd, spellingMore]
  | cons e es => exact ⟨.grouped hd hds, by rw [lead], by rw [spelling]⟩

end Doc

namespace Doc.Spells

variable {d e : Doc} {cs us : List Char}

theorem ofText {s : String} (hs : s ≠ "") : (Doc.text s).Spells s.toList :=
  ⟨.text hs, rfl, by rw [spelling]⟩

theorem ne_empty (hd : d.Spells cs) : d ≠ .empty := hd.inked.ne_empty

theorem beside (hd : d.Spells cs) (spaced : Bool) (he : e.Spells us) :
    (d.beside spaced e).Spells (cs ++ gapText spaced ++ us) := by
  unfold Doc.beside
  rw [isEmpty_of_ne hd.ne_empty, isEmpty_of_ne he.ne_empty]
  exact ⟨.joined hd.inked he.inked, by simp [lead, hd.lead_eq],
    by simp [spelling, hd.spelling_eq, he.spelling_eq]⟩

theorem append (hd : d.Spells cs) (he : e.Spells us) : (d ++ e).Spells (cs ++ us) := by
  have h := hd.beside false he
  rw [gapText, if_neg (by decide), List.append_nil] at h
  exact h

theorem appendSpace (hd : d.Spells cs) (he : e.Spells us) :
    (d.appendSpace e).Spells (cs ++ ' ' :: us) := by
  have h := hd.beside true he
  rw [gapText, if_pos rfl, List.append_assoc] at h
  exact h

/-- Two marks with nothing between them, or with a document. -/
theorem enclosed {l r : Doc} {ls rs : List Char} (hl : l.Spells ls) (hr : r.Spells rs)
    (hd : d = .empty ∧ cs = [] ∨ d.Spells cs) : (l ++ d ++ r).Spells (ls ++ cs ++ rs) := by
  rcases hd with ⟨rfl, rfl⟩ | hd
  · have hempty : l ++ Doc.empty = l := by
      show l.beside false .empty = l
      rw [Doc.beside, isEmpty_of_ne hl.ne_empty]
      rfl
    rw [hempty, List.append_nil]
    exact hl.append hr
  · exact (hl.append hd).append hr

theorem parens (hd : d.Spells cs) : d.parens.Spells ('(' :: cs ++ [')']) :=
  enclosed (ofText (s := "(") (by decide)) (ofText (s := ")") (by decide)) (.inr hd)

theorem brackets (hd : d.Spells cs) : d.brackets.Spells ('[' :: cs ++ [']']) :=
  enclosed (ofText (s := "[") (by decide)) (ofText (s := "]") (by decide)) (.inr hd)

end Doc.Spells

section

variable {ds : List Doc} {css : List (List Char)} (hds : List.Forall₂ Spells ds css)
include hds

theorem inked_of_spells : ∀ d ∈ ds, d.Inked := by
  induction hds with
  | nil => simp
  | cons hd _ ih => exact List.forall_mem_cons.mpr ⟨hd.inked, ih⟩

theorem spellingMore_eq {d : Doc} {cs : List Char} (hd : d.Spells cs) :
    d.spelling ++ spellingMore ds = List.intercalate [' '] (cs :: css) := by
  induction hds generalizing d cs with
  | nil => simp [spellingMore, hd.spelling_eq]
  | cons he _ ih =>
    rw [spellingMore, List.cons_append, ih he, hd.spelling_eq, List.intercalate_cons_cons]; simp

theorem spells_foldl {d : Doc} {cs : List Char} (hd : d.Spells cs) :
    (ds.foldl Doc.appendSpace d).Spells (List.intercalate [' '] (cs :: css)) := by
  induction hds generalizing d cs with
  | nil => simpa using hd
  | @cons e us es uss he _ ih =>
    have hjoin : List.intercalate [' '] ((cs ++ ' ' :: us) :: uss) = List.intercalate [' ']
        (cs :: us :: uss) := by
      cases uss <;> simp [List.intercalate_cons_cons]
    rw [← hjoin]
    exact ih (hd.appendSpace he)

theorem spells_hsep (hne : css ≠ []) : (hsep ds).Spells (List.intercalate [' '] css) := by
  cases hds with
  | nil => exact absurd rfl hne
  | cons hd hds => exact spells_foldl hds hd

theorem spells_fill (m : Mode) (hne : css ≠ []) :
    (m.fill ds).Spells (List.intercalate [' '] css) := by
  unfold Mode.fill
  split_ifs
  · cases hds with
    | nil => exact absurd rfl hne
    | cons hd hds =>
      obtain ⟨hinked, hlead, hspelling⟩ := inked_group hd.inked (inked_of_spells hds) true
      exact ⟨hinked, by rw [fsep, hlead, hd.lead_eq],
        by rw [fsep, hspelling, spellingMore_eq hds hd]⟩
  · exact spells_hsep hds hne

/-- The first member is moved back as far as all are moved. -/
theorem spells_fillOnside (m : Mode) (hne : css ≠ []) :
    (m.fillOnside ds).Spells (List.intercalate [' '] css) := by
  unfold Mode.fillOnside
  split_ifs
  · rw [filter_inked (inked_of_spells hds)]
    cases hds with
    | nil => exact absurd rfl hne
    | @cons d cs ds css hd hds =>
      have hfirst := hd.inked.nest (-Mode.columns m.onsideIndent)
      obtain ⟨hinked, hlead, hspelling⟩ := inked_group hfirst (inked_of_spells hds) true
      dsimp only [fsep]
      refine ⟨hinked.nest _, ?_, ?_⟩
      · rw [hinked.lead_nest, hlead, hd.inked.lead_nest, hd.lead_eq]
        omega
      · rw [spelling_nest, hspelling, spelling_nest, spellingMore_eq hds hd]
  · exact spells_hsep hds hne

/-- With commas after all but the last, the texts stand apart by a comma and a space. -/
theorem spells_punctuate : ∃ uss, List.Forall₂ Spells (punctuate comma ds) uss ∧
    List.intercalate [' '] uss = List.intercalate [',', ' '] css ∧ (css ≠ [] → uss ≠ []) := by
  induction hds with
  | nil => exact ⟨[], .nil, rfl, id⟩
  | @cons d cs es css hd hes ih =>
    cases hes with
    | nil => exact ⟨[cs], .cons hd .nil, by simp, by simp⟩
    | cons he hrest =>
      obtain ⟨uss, hall, htext, hne⟩ := ih
      obtain ⟨us, uss, rfl⟩ := List.exists_cons_of_ne_nil (hne (by simp))
      have hcomma := hd.append (Spells.ofText (s := ",") (by decide))
      refine ⟨_ :: us :: uss, .cons hcomma hall, ?_, by simp⟩
      rw [List.intercalate_cons_cons, htext, List.intercalate_cons_cons]
      simp

/-- A list between two marks, which may have no members. -/
theorem spells_list {l r : Doc} {ls rs : List Char} (hl : l.Spells ls)
    (hr : r.Spells rs) (m : Mode) :
    (l ++ m.fill (punctuate comma ds) ++ r).Spells (ls ++
      List.intercalate [',', ' '] css ++ rs) := by
  obtain ⟨uss, hall, htext, hne⟩ := spells_punctuate hds
  refine Spells.enclosed hl hr ?_
  cases hds with
  | nil =>
    left
    unfold Mode.fill
    split_ifs <;> exact ⟨rfl, rfl⟩
  | cons hd hrest =>
    right
    rw [← htext]
    exact spells_fill hall m (hne (by simp))

theorem spells_parenList (m : Mode) :
    (m.parenList ds).Spells ('(' :: List.intercalate [',', ' '] css ++ [')']) :=
  spells_list hds (.ofText (s := "(") (by decide)) (.ofText (s := ")") (by decide)) m

theorem spells_bracketList (m : Mode) :
    (m.bracketList (punctuate comma ds)).Spells ('[' :: List.intercalate [',', ' '] css ++ [']']) :=
  spells_list hds (.ofText (s := "[") (by decide)) (.ofText (s := "]") (by decide)) m

theorem spells_braceList (m : Mode) :
    (m.braceList ds).Spells ('\x7b' :: List.intercalate [',', ' '] css ++ ['\x7d']) :=
  spells_list hds (.ofText (s := "\x7b") (by decide)) (.ofText (s := "\x7d") (by decide)) m

end

end Offside
