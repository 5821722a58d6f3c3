import Offside.Proofs.Compositional

/-!
# A document that fits on one line stays on it

On one line a document is a row of texts and spaces. A group goes on one line when its width and
what must follow it fit. What the group sees of the text behind it is never more than the width of
that text on one line, so where the whole document fits each of its groups does.
-/
namespace Offside

open Doc

/-- A part of a line: a leaf, or the space between two neighbours. -/
inductive Piece where
  | leaf (s : String)
  | blank
deriving DecidableEq

namespace Piece

def toText : Piece → String
  | .leaf s => s
  | .blank => " "

/-- Whether nothing is seen of the piece at the end of a line. -/
def isBlank : Piece → Bool
  | .leaf s => s.isEmpty
  | .blank => true

def width : Piece → Nat
  | .leaf s => s.length
  | .blank => 1

def between (spaced : Bool) : List Piece := if spaced then [.blank] else []

/-- Writes a piece: a leaf at once, a space only before the next leaf. -/
def write : Piece → Cursor → Laid
  | .leaf s, c => c.write s
  | .blank, c => (c.advance 1, [])

end Piece

mutual

/-- The pieces of a document on one line. -/
def Doc.row : Doc → List Piece
  | .empty => []
  | .text s => [.leaf s]
  | .nested _ d => d.row
  | .joined l spaced r => l.row ++ Piece.between spaced ++ r.row
  | .stacked u _ l => u.row ++ l.row
  | .grouped _ _ [] => []
  | .grouped _ spaced (m :: ms) => m.row ++ Doc.rowMore spaced ms

/-- Further members of a group, each after a gap. -/
def Doc.rowMore (spaced : Bool) : List Doc → List Piece
  | [] => []
  | d :: ds => Piece.between spaced ++ d.row ++ Doc.rowMore spaced ds

end

/-- The text of a row without the spaces after its last visible leaf. -/
def rowText (ps : List Piece) : String :=
  String.join ((ps.rdropWhile Piece.isBlank).map Piece.toText)

/-- The text of a document on one line. -/
def Doc.flatText (d : Doc) : String := rowText d.row

/-- Writes the pieces of a line in turn. -/
def writeRow : List Piece → Cursor → Laid
  | [], c => (c, [])
  | p :: ps, c => (p.write c).andThen (writeRow ps)

theorem writeRow_append (ps qs : List Piece) (c : Cursor) :
    writeRow (ps ++ qs) c = (writeRow ps c).andThen (writeRow qs) := by
  induction ps generalizing c with
  | nil => rfl
  | cons p ps ih =>
    rw [List.cons_append, writeRow, writeRow, Laid.andThen_assoc]
    exact Laid.andThen_congr (ih _)

theorem writeRow_between (spaced : Bool) (c : Cursor) :
    writeRow (Piece.between spaced) c = (c.skip spaced, []) := by
  cases spaced <;> rfl

/-! ### Widths -/

theorem flat?_joined_iff {l r : Doc} {spaced : Bool} {w : Nat} :
    (joined l spaced r).flat? = some w ↔
      ∃ a b, l.flat? = some a ∧ r.flat? = some b ∧ w = a + gap spaced + b := by
  simp only [flat?]
  cases l.flat? <;> cases r.flat? <;> simp [eq_comm]

theorem flatSum?_cons_iff {d : Doc} {ds : List Doc} {w : Nat} :
    flatSum? (d :: ds) = some w ↔ ∃ a b, d.flat? = some a ∧ flatSum? ds = some b ∧ w = a + b := by
  simp only [flatSum?]
  cases d.flat? <;> cases flatSum? ds <;> simp [eq_comm]

theorem flat?_of_mem {d : Doc} {ds : List Doc} {w : Nat} (hw : flatSum? ds = some w) (hd : d ∈ ds) :
    ∃ a, d.flat? = some a := by
  induction ds generalizing w with
  | nil => simp at hd
  | cons e ds ih =>
    obtain ⟨a, b, ha, hb, -⟩ := flatSum?_cons_iff.mp hw
    rcases List.mem_cons.mp hd with rfl | hd
    · exact ⟨a, ha⟩
    · exact ih hb hd

/-- A group of at least one member has the width of its members and of the gaps between them. -/
theorem flat?_grouped_iff {fill spaced : Bool} {m : Doc} {ms : List Doc} {w : Nat} :
    (grouped fill spaced (m :: ms)).flat? = some w ↔
      ∃ a b, m.flat? = some a ∧ flatSum? ms = some b ∧ w = a + b + gap spaced * ms.length := by
  simp only [flat?, flatSum?]
  cases m.flat? <;> cases flatSum? ms <;> simp [eq_comm]

/-- The first line of the narrowest layout is no wider than the document on one line. -/
theorem first_le_flat {d : Doc} {w : Nat} (hw : d.flat? = some w) : d.first ≤ w := by
  induction d using Doc.inductOn generalizing w with
  | empty => simp [first]
  | text s => simp_all [first, flat?]
  | nested k d ih => exact ih hw
  | joined l spaced r ihl ihr =>
    obtain ⟨a, b, ha, hb, rfl⟩ := flat?_joined_iff.mp hw
    have hl := ihl ha
    have hr := ihr hb
    rw [first]
    split <;> omega
  | stacked u overlap l ihu ihl => simp [flat?] at hw
  | grouped fill spaced ds ih =>
    cases ds with
    | nil => simp [first]
    | cons m ms =>
      obtain ⟨a, b, ha, hb, rfl⟩ := flat?_grouped_iff.mp hw
      have hm := ih m (by simp) ha
      rw [first]
      omega

theorem ahead_le_flat {d : Doc} {w : Nat} (hw : d.flat? = some w) (fit : Fit) (follow : Nat) :
    d.ahead fit follow ≤ w + follow := by
  have h := first_le_flat hw
  cases fit with
  | flat => rw [ahead_flat hw]
  | broken =>
    rw [ahead_broken]
    split <;> omega

def rowWidth (ps : List Piece) : Nat := (ps.map Piece.width).sum

@[simp] theorem rowWidth_append (ps qs : List Piece) :
    rowWidth (ps ++ qs) = rowWidth ps + rowWidth qs := by
  simp [rowWidth]

@[simp] theorem rowWidth_between (spaced : Bool) :
    rowWidth (Piece.between spaced) = gap spaced := by
  cases spaced <;> rfl

theorem rowWidth_rowMore (spaced : Bool) {ds : List Doc} {w : Nat} (hw : flatSum? ds = some w)
    (ih : ∀ d ∈ ds, ∀ a, d.flat? = some a → rowWidth d.row = a) :
    rowWidth (rowMore spaced ds) = w + gap spaced * ds.length := by
  induction ds generalizing w with
  | nil =>
    obtain rfl : 0 = w := by simpa [flatSum?] using hw
    rfl
  | cons d ds ihds =>
    obtain ⟨a, b, ha, hb, rfl⟩ := flatSum?_cons_iff.mp hw
    have hd := ih d (by simp) a ha
    have hds := ihds hb fun e he => ih e (by simp [he])
    rw [rowMore, rowWidth_append, rowWidth_append, rowWidth_between, hd, hds, List.length_cons,
      Nat.mul_succ]
    omega

theorem rowWidth_row {d : Doc} {w : Nat} (hw : d.flat? = some w) : rowWidth d.row = w := by
  induction d using Doc.inductOn generalizing w with
  | empty => simpa [flat?, row, rowWidth] using hw
  | text s => simpa [flat?, row, rowWidth, Piece.width] using hw
  | nested k d ih => exact ih hw
  | joined l spaced r ihl ihr =>
    obtain ⟨a, b, ha, hb, rfl⟩ := flat?_joined_iff.mp hw
    rw [row, rowWidth_append, rowWidth_append, rowWidth_between, ihl ha, ihr hb]
  | stacked u overlap l ihu ihl => simp [flat?] at hw
  | grouped fill spaced ds ih =>
    cases ds with
    | nil => simpa [flat?, flatSum?, row, rowWidth] using hw
    | cons m ms =>
      obtain ⟨a, b, ha, hb, rfl⟩ := flat?_grouped_iff.mp hw
      have hm := ih m (by simp) ha
      have hms := rowWidth_rowMore spaced hb fun d hd _ h => ih d (by simp [hd]) h
      rw [row, rowWidth_append, hm, hms]
      omega

theorem write_column (p : Piece) (c : Cursor) : (p.write c).1.column = c.column + p.width := by
  cases p with
  | leaf s =>
    rw [Piece.write, Cursor.write, Piece.width]
    split_ifs with h
    · simp_all
    · rfl
    · rfl
  | blank => rfl

theorem write_lineIndent (p : Piece) (c : Cursor) : (p.write c).1.lineIndent = c.lineIndent := by
  cases p with
  | leaf s =>
    rw [Piece.write, Cursor.write]
    split_ifs <;> rfl
  | blank => rfl

/-- A row of pieces moves the cursor by its width. -/
theorem writeRow_column (ps : List Piece) (c : Cursor) :
    (writeRow ps c).1.column = c.column + rowWidth ps := by
  induction ps generalizing c with
  | nil => simp [writeRow, rowWidth]
  | cons p ps ih =>
    rw [writeRow, Laid.andThen_fst, ih, write_column]
    simp [rowWidth, Int.add_assoc]

theorem writeRow_lineIndent (ps : List Piece) (c : Cursor) :
    (writeRow ps c).1.lineIndent = c.lineIndent := by
  induction ps generalizing c with
  | nil => rfl
  | cons p ps ih => rw [writeRow, Laid.andThen_fst, ih, write_lineIndent]

/-! ### On one line by order or by choice -/

theorem layFlat_eq_writeRow {limits : Limits} {follow : Nat} {spaced : Bool} {ds : List Doc}
    (ih : ∀ d ∈ ds, ∀ follow indent c, d.lay limits follow indent .flat c = writeRow d.row c)
    (c : Cursor) : layFlat limits follow spaced ds c = writeRow (rowMore spaced ds) c := by
  induction ds generalizing c with
  | nil => rfl
  | cons d ds ihds =>
    rw [layFlat, ih d (by simp), rowMore, writeRow_append, writeRow_append, writeRow_between,
      Laid.silent_andThen]
    exact Laid.andThen_congr (ihds (fun e he => ih e (by simp [he])) _)

/-- What has to stay on one line is written piece by piece. -/
theorem lay_flat_eq_writeRow {d : Doc} {w : Nat} (hw : d.flat? = some w) (limits : Limits)
    (follow : Nat) (indent : Int) (c : Cursor) :
    d.lay limits follow indent .flat c = writeRow d.row c := by
  induction d using Doc.inductOn generalizing w follow indent c with
  | empty => rfl
  | text s =>
    rw [Doc.lay]
    exact (Laid.andThen_silent _).symm
  | nested k d ih =>
    rw [Doc.lay]
    exact ih hw ..
  | joined l spaced r ihl ihr =>
    obtain ⟨a, b, ha, hb, rfl⟩ := flat?_joined_iff.mp hw
    rw [Doc.lay, ihl ha, row, writeRow_append, writeRow_append, Laid.andThen_assoc]
    apply Laid.andThen_congr
    rw [writeRow_between, Laid.silent_andThen]
    exact ihr hb ..
  | stacked u overlap l ihu ihl => simp [flat?] at hw
  | grouped fill spaced ds ih =>
    cases ds with
    | nil => rfl
    | cons m ms =>
      obtain ⟨a, b, ha, hb, rfl⟩ := flat?_grouped_iff.mp hw
      rw [Doc.lay, if_pos (by simp), ih m (by simp) ha, row, writeRow_append]
      refine Laid.andThen_congr (layFlat_eq_writeRow (fun d hd follow indent c => ?_) _)
      obtain ⟨x, hx⟩ := flat?_of_mem hb hd
      exact ih d (by simp [hd]) hx ..

theorem fits_mono {limits : Limits} {c : Cursor} {v w : Nat} (hvw : v ≤ w) (hw : c.fits limits w) :
    c.fits limits v := by
  cases h : limits.discipline with
  | page =>
    simp only [Cursor.fits, h, decide_eq_true_eq] at hw ⊢
    omega
  | oneLine => simp [Cursor.fits, h] at hw
  | left => simp [Cursor.fits, h]

/-- Text written on the line takes as much room as it is wide. -/
theorem fits_advance {limits : Limits} {c c' : Cursor} {v w : Nat} (hcol : c'.column = c.column + v)
    (hindent : c'.lineIndent = c.lineIndent) : c'.fits limits w = c.fits limits (v + w) := by
  unfold Cursor.fits
  cases limits.discipline with
  | page =>
    simp only [decide_eq_decide, hcol, hindent]
    omega
  | oneLine => rfl
  | left => rfl

@[simp] theorem skip_column (spaced : Bool) (c : Cursor) :
    (c.skip spaced).column = c.column + gap spaced := by
  cases spaced <;> simp [Cursor.skip, Cursor.advance, gap]

@[simp] theorem skip_lineIndent (spaced : Bool) (c : Cursor) :
    (c.skip spaced).lineIndent = c.lineIndent := by
  cases spaced <;> rfl

/-- What fits on the line, with what must follow it, is written piece by piece. -/
theorem lay_fits_eq_writeRow {limits : Limits} {d : Doc} {w follow : Nat} {c : Cursor}
    (hw : d.flat? = some w) (hfits : c.fits limits (w + follow)) (indent : Int) (fit : Fit) :
    d.lay limits follow indent fit c = writeRow d.row c := by
  induction d using Doc.inductOn generalizing w follow indent c with
  | empty => rfl
  | text s =>
    rw [Doc.lay]
    exact (Laid.andThen_silent _).symm
  | nested k d ih =>
    rw [Doc.lay]
    exact ih hw hfits _
  | joined l spaced r ihl ihr =>
    obtain ⟨a, b, ha, hb, rfl⟩ := flat?_joined_iff.mp hw
    -- the left side sees at most the width of the right side and of what follows both
    have hright := ahead_le_flat hb fit follow
    have hleft : c.fits limits (a + (gap spaced + r.ahead fit follow)) := fits_mono (by omega) hfits
    rw [Doc.lay, ihl ha hleft, row, writeRow_append, writeRow_append, Laid.andThen_assoc]
    apply Laid.andThen_congr
    rw [writeRow_between, Laid.silent_andThen]
    apply ihr hb
    rw [fits_advance (c := c) (v := a + gap spaced), ← Nat.add_assoc]
    · exact hfits
    · rw [skip_column, writeRow_column, rowWidth_row ha]
      omega
    · rw [skip_lineIndent, writeRow_lineIndent]
  | stacked u overlap l ihu ihl => simp [flat?] at hw
  | grouped fill spaced ds ih =>
    cases ds with
    | nil => rfl
    | cons m ms =>
      have hall : (grouped fill spaced (m :: ms)).lay limits follow indent .flat c =
          writeRow (grouped fill spaced (m :: ms)).row c := lay_flat_eq_writeRow hw ..
      rw [← hall, Doc.lay, Doc.lay, if_pos (by simp [hw, hfits]), if_pos (by simp)]

/-! ### The text of a row -/

theorem textOf_eq_join (cs : List Chunk) : Chunk.textOf cs = String.join (cs.map Chunk.toText) := by
  rw [Chunk.textOf, String.join, List.foldl_map]

@[simp] theorem textOf_append (cs ds : List Chunk) :
    Chunk.textOf (cs ++ ds) = Chunk.textOf cs ++ Chunk.textOf ds := by
  simp [textOf_eq_join]

theorem rowText_of_blank {ps : List Piece} (h : ps.all Piece.isBlank) : rowText ps = "" := by
  have hnil : ps.rdropWhile Piece.isBlank = [] := List.rdropWhile_eq_nil_iff.mpr (by simpa using h)
  rw [rowText, hnil]
  rfl

/-- A piece before a visible one keeps its place. -/
theorem rowText_cons {ps : List Piece} (h : ¬ ps.all Piece.isBlank) (p : Piece) :
    rowText (p :: ps) = p.toText ++ rowText ps := by
  have hne : (ps.reverse.dropWhile Piece.isBlank).isEmpty = false := by
    rw [List.isEmpty_eq_false_iff, ne_eq, List.dropWhile_eq_nil_iff]
    simpa using h
  simp [rowText, List.rdropWhile, List.dropWhile_append, hne]

theorem rowText_cons_visible {p : Piece} (h : ¬ p.isBlank) (ps : List Piece) :
    rowText (p :: ps) = p.toText ++ rowText ps := by
  by_cases hps : ps.all Piece.isBlank
  · have hnil : (ps.reverse.dropWhile Piece.isBlank) = [] :=
      List.dropWhile_eq_nil_iff.mpr (by simpa using hps)
    simp [rowText, List.rdropWhile, List.dropWhile_append, hnil, h]
  · exact rowText_cons hps p

theorem write_blank {p : Piece} (hp : p.isBlank) (c : Cursor) :
    (p.write c).2 = [] ∧
      (Chunk.spaces (p.write c).1.owed).toText = (Chunk.spaces c.owed).toText ++ p.toText := by
  cases p with
  | leaf s =>
    have hs : s.isEmpty := hp
    simp_all [Piece.write, Cursor.write, Piece.toText]
  | blank =>
    refine ⟨rfl, ?_⟩
    simp only [Piece.write, Cursor.advance, Chunk.toText, Piece.toText, List.replicate_succ',
      String.ofList_append]

theorem write_visible {p : Piece} (hp : ¬ p.isBlank) (c : Cursor) :
    (p.write c).1.owed = 0 ∧ Chunk.textOf (p.write c).2 =
      (Chunk.spaces c.owed).toText ++ p.toText := by
  cases p with
  | leaf s =>
    have hs : ¬ s.isEmpty := hp
    rw [Piece.write, Cursor.write, if_neg hs]
    split_ifs with howed <;> simp [howed, textOf_eq_join, Chunk.toText, Piece.toText]
  | blank => simp [Piece.isBlank] at hp

/-- The spaces that are due before a row are written only before a visible leaf. -/
theorem textOf_writeRow (ps : List Piece) (c : Cursor) :
    Chunk.textOf (writeRow ps c).2 =
      if ps.all Piece.isBlank then "" else (Chunk.spaces c.owed).toText ++ rowText ps := by
  induction ps generalizing c with
  | nil => rfl
  | cons p ps ih =>
    rw [writeRow, Laid.andThen_snd, textOf_append, ih, List.all_cons]
    by_cases hp : p.isBlank
    · obtain ⟨hsilent, howed⟩ := write_blank hp c
      by_cases hps : ps.all Piece.isBlank
      · simp [hp, hps, hsilent, textOf_eq_join]
      · rw [hsilent, howed, if_neg hps, if_neg (by simp_all), rowText_cons hps]
        simp [textOf_eq_join, String.append_assoc]
    · obtain ⟨howed, htext⟩ := write_visible hp c
      rw [htext, howed, rowText_cons_visible hp]
      by_cases hps : ps.all Piece.isBlank
      · simp [hp, hps, rowText_of_blank hps]
      · simp [hp, hps, Chunk.toText, String.append_assoc]

theorem newline_notMem_writeRow (ps : List Piece) (c : Cursor) : .newline ∉ (writeRow ps c).2 := by
  induction ps generalizing c with
  | nil => simp [writeRow]
  | cons p ps ih =>
    rw [writeRow, Laid.andThen_snd, List.mem_append, not_or]
    refine ⟨?_, ih _⟩
    cases p with
    | leaf s =>
      rw [Piece.write, Cursor.write]
      split_ifs <;> simp
    | blank => simp [Piece.write]

/-- A row shows nothing exactly if all of it is blank. -/
theorem rowText_eq_empty_iff (ps : List Piece) : rowText ps = "" ↔ ps.all Piece.isBlank := by
  refine ⟨fun h => ?_, rowText_of_blank⟩
  induction ps with
  | nil => rfl
  | cons p ps ih =>
    by_cases hp : p.isBlank
    · by_contra hall
      have hps : ¬ ps.all Piece.isBlank := by simpa [hp] using hall
      rw [rowText_cons hps, String.append_eq_empty_iff] at h
      exact hps (ih h.2)
    · rw [rowText_cons_visible hp, String.append_eq_empty_iff] at h
      cases p with
      | leaf s =>
        have hs : s = "" := h.1
        exact absurd (by simp [Piece.isBlank, hs]) hp
      | blank => exact absurd rfl hp

theorem chunks_of_fits {style : Style} {d : Doc} {w : Nat} (hw : d.flat? = some w)
    (hfits : (Cursor.start style.discipline d).fits style.limits w) :
    d.chunks style = (writeRow d.row (.start style.discipline d)).2 := by
  rw [chunks_eq_lay, lay_fits_eq_writeRow hw hfits]

theorem render_of_fits {style : Style} {d : Doc} {w : Nat} (hw : d.flat? = some w)
    (hfits : (Cursor.start style.discipline d).fits style.limits w) :
    d.render style =
      if d.flatText = "" then "" else
        (Chunk.spaces (Cursor.start style.discipline d).owed).toText ++ d.flatText := by
  rw [Doc.render, chunks_of_fits hw hfits, textOf_writeRow]
  simp only [Doc.flatText, rowText_eq_empty_iff]

/-- A word below the sign bit is the same number as a column. -/
theorem toInt_toInt64 {n : UInt64} (hn : n.toNat < 2 ^ 63) : n.toInt64.toInt = n.toNat := by
  change n.toBitVec.toInt = n.toNat
  rw [BitVec.toInt_eq_toNat_of_lt]
  · rfl
  · rw [UInt64.toNat_toBitVec]
    omega

/-- A document whose width on one line fits a page is printed on one line, after the spaces of its
nesting; and without regard to widths, and without these spaces, where indentation is dropped. -/
theorem fitting_document_stays_on_one_line (d : Doc) (w : Nat) (hw : d.flat? = some w)
    (style : Style) :
    (style.discipline = .page → style.lineLength.toNat < 2 ^ 63 → style.ribbonWidth.toNat < 2 ^ 63 →
      max d.lead 0 + w ≤ style.lineLength.toNat → w ≤ style.ribbonWidth.toNat →
        .newline ∉ d.chunks style ∧
          d.render style =
            if d.flatText = "" then "" else (Chunk.spaces (max d.lead 0).toNat).toText ++
              d.flatText) ∧
    (style.discipline = .left → .newline ∉ d.chunks style ∧ d.render style = d.flatText) := by
  constructor
  · intro hpage hline hribbon hl hr
    have hfits : (Cursor.start style.discipline d).fits style.limits w := by
      simp only [Cursor.start, Cursor.fits, Style.limits, hpage, toInt_toInt64 hline,
        toInt_toInt64 hribbon, decide_eq_true_eq]
      omega
    refine ⟨?_, ?_⟩
    · rw [chunks_of_fits hw hfits]
      exact newline_notMem_writeRow _ _
    · rw [render_of_fits hw hfits]
      simp [Cursor.start, hpage]
  · intro hleft
    have hfits : (Cursor.start style.discipline d).fits style.limits w := by
      simp [Cursor.fits, Style.limits, hleft]
    refine ⟨?_, ?_⟩
    · rw [chunks_of_fits hw hfits]
      exact newline_notMem_writeRow _ _
    · rw [render_of_fits hw hfits]
      by_cases htext : d.flatText = ""
      · simp [htext]
      · simp [htext, Cursor.start, hleft, Chunk.toText]

theorem let_binding_stays_on_one_line :
    let d : Doc := .nested 3 (.joined (.text "let") true
      (.grouped false true [.text "x", .grouped true true [.text "=", .text "1", .text ""]]))
    d.flat? = some 10 ∧ .newline ∉ d.chunks {} ∧
      d.render {} = if d.flatText = "" then "" else
      (Chunk.spaces (max d.lead 0).toNat).toText ++ d.flatText := by
  intro d
  have hw : d.flat? = some 10 := by decide
  exact ⟨hw, (fitting_document_stays_on_one_line d 10 hw {}).1 rfl (by decide) (by decide)
    (by decide) (by decide)⟩

end Offside
