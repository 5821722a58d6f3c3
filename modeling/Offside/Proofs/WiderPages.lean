import Offside.Proofs.ChunkStream
import Offside.Proofs.RowOrColumn

/-!
# Room on wider pages

What has room on a page has room on every page with longer lines and wider ribbons, as long as both
widths are columns, that is below 2^63. From there on a width is a negative column. A page that goes
on for 2^63 columns behind the cursor has no room for anything narrower than 2^63 columns, and a
group on it is laid out as a column, however short it is.
-/
namespace Offside

open Doc

/-- Two pages of which the second has the longer lines and the wider ribbons. -/
structure Style.NarrowerThan (s t : Style) : Prop where
  left_page : s.discipline = .page
  right_page : t.discipline = .page
  lineLength_le : s.lineLength ≤ t.lineLength
  ribbonWidth_le : s.ribbonWidth ≤ t.ribbonWidth

theorem toInt_toInt64_mono {m n : UInt64} (h : m ≤ n) (hn : n.toNat < 2 ^ 63) :
    m.toInt64.toInt ≤ n.toInt64.toInt := by
  have hmn : m.toNat ≤ n.toNat := UInt64.le_iff_toNat_le.mp h
  rw [toInt_toInt64 hn, toInt_toInt64 (Nat.lt_of_le_of_lt hmn hn)]
  exact Int.ofNat_le.mpr hmn

/-- The renderer as it stands, on another page. -/
def Renderer.onto (style : Style) (r : Renderer) : Renderer :=
  { r with
    discipline := style.discipline
    lineLength := style.lineLength.toInt64
    ribbon := style.ribbonWidth.toInt64 }

theorem Renderer.fits_onto_iff {style : Style} (hpage : style.discipline = .page)
    (r : Renderer) (w : UInt64) :
    (r.onto style).fits w ↔ w.toInt64.toInt ≤ (style.lineLength.toInt64 - r.column).toInt ∧
      w.toInt64.toInt ≤ (style.ribbonWidth.toInt64 - (r.column - r.lineIndent)).toInt := by
  simp only [Renderer.fits, Renderer.onto, hpage, decide_eq_true_eq]
  rw [Int64.le_iff_toInt_le, toInt_min]
  omega

section

variable {r : Renderer} (hnonneg : 0 ≤ r.lineIndent) (hle : r.lineIndent ≤ r.column)
include hnonneg hle

theorem Renderer.toInt_column_sub :
    (r.column - r.lineIndent).toInt = r.column.toInt - r.lineIndent.toInt := by
  rw [Int64.le_iff_toInt_le, Int64.toInt_zero] at hnonneg
  rw [Int64.le_iff_toInt_le] at hle
  have := r.column.toInt_lt
  exact toInt_sub_of_fits (by omega) (by omega)

/-- What fits a page fits a wider one whose widths are columns. -/
theorem Style.NarrowerThan.fits {s t : Style} (h : s.NarrowerThan t)
    (hline : t.lineLength.toNat < 2 ^ 63) (hribbon : t.ribbonWidth.toNat < 2 ^ 63) {w : UInt64}
    (hfits : (r.onto s).fits w) : (r.onto t).fits w := by
  have hinner := Renderer.toInt_column_sub hnonneg hle
  rw [Int64.le_iff_toInt_le, Int64.toInt_zero] at hnonneg
  rw [Int64.le_iff_toInt_le] at hle
  have hcolumn := r.column.toInt_lt
  -- a width and a column on the page are never 2^63 apart
  have hroom : ∀ {m n : UInt64} {c : Int64}, m ≤ n → n.toNat < 2 ^ 63 → 0 ≤ c.toInt →
      (m.toInt64 - c).toInt ≤ (n.toInt64 - c).toInt := by
    intro m n c hmn hn hc
    have hmono := toInt_toInt64_mono hmn hn
    have hm := toInt_toInt64 (Nat.lt_of_le_of_lt (UInt64.le_iff_toNat_le.mp hmn) hn)
    have hn' := toInt_toInt64 hn
    have hc' := c.toInt_lt
    rw [toInt_sub_of_fits (by omega) (by omega), toInt_sub_of_fits (by omega) (by omega)]
    omega
  rw [Renderer.fits_onto_iff h.left_page] at hfits
  rw [Renderer.fits_onto_iff h.right_page]
  obtain ⟨hl, hr⟩ := hfits
  exact ⟨hl.trans (hroom h.lineLength_le hline (by omega)),
    hr.trans (hroom h.ribbonWidth_le hribbon (by omega))⟩

/-- Nothing narrower than 2^63 columns fits a page of which a width goes on for 2^63 columns behind
the cursor. -/
theorem not_fits_of_sign_bit {t : Style} (ht : t.discipline = .page)
    (hwide : r.column.toInt + 2 ^ 63 ≤ t.lineLength.toNat ∨
      r.column.toInt - r.lineIndent.toInt + 2 ^ 63 ≤ t.ribbonWidth.toNat) {w : UInt64}
    (hw : w.toNat < 2 ^ 63) :
    ¬ (r.onto t).fits w := by
  have hinner := Renderer.toInt_column_sub hnonneg hle
  rw [Int64.le_iff_toInt_le, Int64.toInt_zero] at hnonneg
  rw [Int64.le_iff_toInt_le] at hle
  have hnegative : ∀ {n : UInt64} {c : Int64}, 0 ≤ c.toInt → c.toInt + 2 ^ 63 ≤ n.toNat →
      (n.toInt64 - c).toInt < 0 := by
    intro n c hc hn
    have hn' := toInt_toInt64_of_le (n := n) (by omega)
    have hlt := n.toNat_lt
    rw [toInt_sub_of_fits (by omega) (by omega)]
    omega
  rw [Renderer.fits_onto_iff ht, toInt_toInt64 hw]
  rintro ⟨hl, hr⟩
  rcases hwide with hline | hribbon
  · have := hnegative (by omega) hline
    omega
  · have := hnegative (n := t.ribbonWidth) (c := r.column - r.lineIndent) (by omega) (by omega)
    omega

end

/-- Before a document the renderer finds room where the machine does. -/
theorem Renderer.start_fits_iff {style : Style} (hstyle : style.IsPage) {d : Doc}
    (hd : d.extent < 2 ^ 63) {w : Nat} (hw : d.flat? = some w) :
    (Renderer.start style d).fits (.ofNat w) ↔
      (Cursor.start style.discipline d).fits style.limits w := by
  have hbounded : (Renderer.start style d).state.Bounded d.extent := by
    rw [start_state hd]
    exact start_bounded style d
  have hsees :=
    (start_on style d).sees_of_bounded hd (hstyle.covers _) hbounded [.render 0 .broken d]
  have hcursor : (Renderer.start style d).cursor = .start style.discipline d :=
    congrArg State.cursor (start_state hd style)
  have hwidth : w < 2 ^ 63 := by
    have := flat?_le_span hw
    rw [extent] at hd
    omega
  rw [← hcursor]
  exact Bool.eq_iff_iff.mp (hsees.fits w hwidth)

/-- A page whose widths are columns keeps on one line what a narrower page does, with the same
pieces. -/
theorem Style.NarrowerThan.chunks_eq {s t : Style} (h : s.NarrowerThan t) (ht : t.IsPage) {d : Doc}
    (hd : d.extent < 2 ^ 63) {w : UInt64} (hw : d.sizes.flat = some w)
    (hfits : (Renderer.start s d).fits w) :
    .newline ∉ (Renderer.start t d).chunks ∧ (Renderer.start t d).chunks =
      (Renderer.start s d).chunks := by
  have hs : s.IsPage := ⟨h.left_page,
    Nat.lt_of_le_of_lt (UInt64.le_iff_toNat_le.mp h.lineLength_le) ht.lineLength_lt,
    Nat.lt_of_le_of_lt (UInt64.le_iff_toNat_le.mp h.ribbonWidth_le) ht.ribbonWidth_lt⟩
  obtain ⟨w, hflat, rfl⟩ : ∃ n, d.flat? = some n ∧ UInt64.ofNat n = w := by
    rw [d.sizes_eq_measured] at hw
    exact Option.map_eq_some_iff.mp hw
  have hwider : (Renderer.start t d).fits (.ofNat w) := by
    have honto : (Renderer.start s d).onto t = Renderer.start t d := by
      simp [Renderer.start, Renderer.onto, h.left_page, h.right_page]
    rw [← honto]
    refine h.fits ?_ (Int64.le_refl _) ht.lineLength_lt ht.ribbonWidth_lt hfits
    rw [Int64.le_iff_toInt_le, Int64.toInt_zero]
    change 0 ≤ (max d.sizes.lead 0).toInt
    rw [toInt_max, Int64.toInt_zero]
    omega
  rw [Renderer.start_fits_iff hs hd hflat] at hfits
  rw [Renderer.start_fits_iff ht hd hflat] at hwider
  rw [Renderer.chunks_eq_chunks hd (hs.covers _), Renderer.chunks_eq_chunks hd (ht.covers _),
    chunks_of_fits hflat hfits, chunks_of_fits hflat hwider, h.left_page, h.right_page]
  exact ⟨newline_notMem_writeRow _ _, rfl⟩

/-- Of two pages let the second be the wider one. If its widths are below 2^63, it has room wherever
the first one has, and a document that stays on one line on the first stays there on the second. If
instead a width of it goes on for 2^63 columns behind the cursor, it has room for nothing that is
narrower than 2^63 columns, and on it `sep` is always `vcat`. -/
theorem wider_pages_keep_room_up_to_sign_bit {s t : Style} (h : s.NarrowerThan t) :
    (t.lineLength.toNat < 2 ^ 63 → t.ribbonWidth.toNat < 2 ^ 63 →
      (∀ (r : Renderer) (w : UInt64), 0 ≤ r.lineIndent → r.lineIndent ≤ r.column →
        (r.onto s).fits w → (r.onto t).fits w) ∧
      ∀ d : Doc, d.extent < 2 ^ 63 → ∀ w, d.sizes.flat = some w → (Renderer.start s d).fits w →
        .newline ∉ (Renderer.start t d).chunks ∧ (Renderer.start t d).chunks =
          (Renderer.start s d).chunks) ∧
    (∀ (r : Renderer) (w : UInt64), 0 ≤ r.lineIndent → r.lineIndent ≤ r.column →
      r.column.toInt + 2 ^ 63 ≤ t.lineLength.toNat ∨
        r.column.toInt - r.lineIndent.toInt + 2 ^ 63 ≤ t.ribbonWidth.toNat →
      w.toNat < 2 ^ 63 → ¬ (r.onto t).fits w) ∧
    ∀ ds : List Doc, room ds < 2 ^ 63 → t.Covers (room ds) →
      2 ^ 63 ≤ t.lineLength.toNat ∨ 2 ^ 63 ≤ t.ribbonWidth.toNat →
        (Renderer.start t (sep ds)).chunks = (Renderer.start t (vcat ds)).chunks := by
  refine ⟨fun hline hribbon => ⟨?_, ?_⟩, ?_, ?_⟩
  · intro r w hnonneg hle hfits
    exact h.fits hnonneg hle hline hribbon hfits
  · intro d hd w hw hfits
    exact h.chunks_eq ⟨h.right_page, hline, hribbon⟩ hd hw hfits
  · intro r w hnonneg hle hwide hw
    exact not_fits_of_sign_bit hnonneg hle h.right_page hwide hw
  · intro ds hds hcovers hwide
    have hroom : ∀ lead w, t.hasRoom lead w = false := by
      intro lead w
      simp only [Style.hasRoom, h.right_page, Bool.and_eq_false_iff, decide_eq_false_iff_not]
      omega
    have hcolumn := Renderer.chunks_group hds hcovers true
    rw [if_neg (by simp [hroom])] at hcolumn
    exact hcolumn

theorem list_of_words_keeps_its_line :
    let s : Style := { lineLength := 12, ribbonsPerLine := Number.Binary.ofFraction false 1 1 }
    let t : Style := { lineLength := 0x7FFFFFFFFFFFFFFF }
    let d := sep [text "let", text "x", text "=", text "1"]
    s.NarrowerThan t ∧ t.lineLength.toNat < 2 ^ 63 ∧ t.ribbonWidth.toNat < 2 ^ 63 ∧
      d.extent < 2 ^ 63 ∧
      d.sizes.flat = some 9 ∧ (Renderer.start s d).fits 9 ∧ .newline ∉ (Renderer.start t d).chunks ∧
      (Renderer.start t d).chunks = (Renderer.start s d).chunks := by
  intro s t d
  have h : s.NarrowerThan t := ⟨rfl, rfl, by decide +kernel, by decide +kernel⟩
  have hline : t.lineLength.toNat < 2 ^ 63 := by decide +kernel
  have hribbon : t.ribbonWidth.toNat < 2 ^ 63 := by decide +kernel
  have hd : d.extent < 2 ^ 63 := by decide
  have hfits : (Renderer.start s d).fits 9 := by decide +kernel
  have hw : d.sizes.flat = some 9 := by decide +kernel
  exact ⟨h, hline, hribbon, hd, hw, hfits,
    ((wider_pages_keep_room_up_to_sign_bit h).1 hline hribbon).2 d hd 9 hw hfits⟩

/-- Two letters fit a page of 100 columns, but not the page with the longest lines there are, nor
one with shorter lines whose ribbon is rounded up to 2^63. -/
theorem widest_pages_break_two_letters :
    let s : Style := {}
    let d := sep [text "a", text "b"]
    d.sizes.flat = some 3 ∧ (Renderer.start s d).fits 3 ∧ (Renderer.start s d).text = "a b" ∧
      ∀ t ∈ [({ lineLength := 0xFFFFFFFFFFFFFFFF } : Style),
          { lineLength := 0x7FFFFFFFFFFFFFFF
            ribbonsPerLine := Number.Binary.ofFraction false 1 1 }],
        s.NarrowerThan t ∧ ¬ (Renderer.start t d).fits 3 ∧ (Renderer.start t d).text = "a\nb" := by
  intro s d
  refine ⟨by decide +kernel, by decide +kernel, by decide +kernel, ?_⟩
  simp only [List.forall_mem_cons]
  refine ⟨⟨⟨rfl, rfl, ?_, ?_⟩, ?_, ?_⟩, ⟨⟨rfl, rfl, ?_, ?_⟩, ?_, ?_⟩, by simp⟩
  all_goals decide +kernel

end Offside
