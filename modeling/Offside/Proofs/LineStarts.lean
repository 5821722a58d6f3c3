import Offside.Proofs.LineEnds

/-!
# How the lines of a layout start

Where all leaves of a document hold text, the machine writes a text as soon as it has chosen a place
for one. So a line break always stands between two texts, and only the indentation of a page between
it and the second. On a single line, and where indentation is dropped, no choice depends on the
width of the page.
-/
namespace Offside

open Doc

/-! ### Texts and what stands between them -/

/-- What stands between two texts: spaces, or a line break and the indentation of the next line. -/
inductive Chunk.Gap (discipline : Discipline) : List Chunk → Prop where
  | spaces (n : Nat) : Gap discipline (padding n)
  | line {n : Nat} : discipline ≠ .oneLine → (discipline = .left → n = 0) →
      Gap discipline (.newline :: padding n)

/-- Texts with gaps between them. -/
inductive Chunk.Lines (discipline : Discipline) : List Chunk → Prop where
  | text (s : String) : Lines discipline [.text s]
  | cons (s : String) {gap cs : List Chunk} : Gap discipline gap → Lines discipline cs →
      Lines discipline (.text s :: (gap ++ cs))

namespace Chunk.Lines

variable {discipline : Discipline} {cs ds gap : List Chunk}

theorem append (hcs : Lines discipline cs) (hgap : Gap discipline gap) (hds : Lines discipline ds) :
    Lines discipline (cs ++ (gap ++ ds)) := by
  induction hcs with
  | text s =>
    rw [List.singleton_append]
    exact .cons s hgap hds
  | cons s hfirst _ ih =>
    rw [List.cons_append, List.append_assoc]
    exact .cons s hfirst ih

theorem head?_eq (hcs : Lines discipline cs) : ∃ s, cs.head? = some (.text s) := by
  cases hcs with
  | text s => exact ⟨s, rfl⟩
  | cons s => exact ⟨s, rfl⟩

theorem getLast?_eq (hcs : Lines discipline cs) : ∃ s, cs.getLast? = some (.text s) := by
  induction hcs with
  | text s => exact ⟨s, rfl⟩
  | @cons s gap cs _ _ ih =>
    obtain ⟨s', hlast⟩ := ih
    refine ⟨s', ?_⟩
    rw [← List.singleton_append, ← List.append_assoc, List.getLast?_append, hlast]
    rfl

end Chunk.Lines

/-- The pieces that can follow a line break. -/
def Chunk.StartsLine (discipline : Discipline) : Chunk → Prop
  | .text _ => True
  | .spaces _ => discipline = .page
  | .newline => False

/-- After a line break comes a text, or on a page its indentation. -/
theorem Chunk.Gap.isChain {discipline : Discipline} {gap cs : List Chunk}
    (hgap : Gap discipline gap) (hhead : ∃ s, cs.head? = some (.text s))
    (hcs : cs.IsChain fun a b => a = .newline → b.StartsLine discipline) (s : String) :
    (.text s :: (gap ++ cs)).IsChain fun a b => a = .newline → b.StartsLine discipline := by
  obtain ⟨s', hhead⟩ := hhead
  obtain ⟨rest, rfl⟩ := List.head?_eq_some_iff.mp hhead
  cases hgap with
  | spaces n =>
    unfold padding
    split_ifs <;> simpa using hcs
  | @line n hne hleft =>
    unfold padding
    split_ifs with hn
    · simpa [StartsLine] using hcs
    · have hpage : discipline = .page := by cases discipline <;> simp_all
      simpa [StartsLine, hpage] using hcs

theorem Chunk.Lines.isChain {discipline : Discipline} {cs : List Chunk}
    (hcs : Lines discipline cs) : cs.IsChain fun a b => a = .newline → b.StartsLine discipline := by
  induction hcs with
  | text s => simp
  | cons s hgap hrest ih => exact hgap.isChain hrest.head?_eq ih s

theorem Chunk.Lines.newline_notMem {cs : List Chunk} (hcs : Lines .oneLine cs) : .newline ∉ cs := by
  induction hcs with
  | text s => simp
  | cons s hgap _ ih =>
    cases hgap with
    | spaces n =>
      unfold padding
      split_ifs <;> simpa using ih
    | line hne => exact absurd rfl hne

/-! ### Layouts without empty texts -/

namespace Laid

/-- From the cursor on the owed spaces and then texts are written. -/
def Inks (discipline : Discipline) (c : Cursor) (x : Laid) : Prop :=
  ∃ cs, x.2 = padding c.owed ++ cs ∧ Chunk.Lines discipline cs

/-- Before the next text there is a gap. -/
def Parts (discipline : Discipline) (x : Laid) : Prop :=
  Chunk.Gap discipline (x.2 ++ padding x.1.owed)

/-- Nothing is written, or a gap and further texts. -/
def Continues (discipline : Discipline) (x : Laid) : Prop :=
  x.2 = [] ∨ ∃ gap cs, x.2 = gap ++ cs ∧ Chunk.Gap discipline gap ∧ Chunk.Lines discipline cs

variable {discipline : Discipline} {c : Cursor} {x : Laid} {f : Cursor → Laid}

theorem Inks.andThen (hx : x.Inks discipline c) (hf : (f x.1).Continues discipline) :
    (x.andThen f).Inks discipline c := by
  obtain ⟨cs, hcs, hlines⟩ := hx
  rcases hf with hnil | ⟨gap, ds, hds, hgap, hmore⟩
  · exact ⟨cs, by rw [andThen_snd, hnil, List.append_nil, hcs], hlines⟩
  · exact ⟨cs ++ (gap ++ ds), by rw [andThen_snd, hcs, hds, List.append_assoc],
      hlines.append hgap hmore⟩

theorem Parts.andThen (hx : x.Parts discipline) (hf : (f x.1).Inks discipline x.1) :
    (x.andThen f).Continues discipline := by
  obtain ⟨cs, hcs, hlines⟩ := hf
  exact .inr ⟨x.2 ++ padding x.1.owed, cs, by rw [andThen_snd, hcs, List.append_assoc], hx, hlines⟩

theorem Inks.continues (hx : x.Inks discipline c) : x.Continues discipline := by
  obtain ⟨cs, hcs, hlines⟩ := hx
  exact .inr ⟨padding c.owed, cs, hcs, .spaces _, hlines⟩

theorem parts_below (indent : Int) (overlap : Bool) (d : Doc) (c : Cursor) :
    Parts discipline (c.below discipline indent overlap d) := by
  unfold Cursor.below
  dsimp only
  split
  · exact .spaces _
  · cases discipline with
    | page => exact .line (by simp) (by simp)
    | left => exact .line (by simp) fun _ => rfl
    | oneLine => exact .spaces 1

end Laid

section

variable {limits : Limits} {ds : List Doc}
  (hds : ∀ d ∈ ds, ∀ follow indent fit c,
    (d.lay limits follow indent fit c).Inks limits.discipline c)

include hds in
theorem layFlat_continues (follow : Nat) (spaced : Bool) (c : Cursor) :
    (layFlat limits follow spaced ds c).Continues limits.discipline := by
  induction ds generalizing c with
  | nil => exact .inl rfl
  | cons d ds ih =>
    obtain ⟨hd, hds⟩ := List.forall_mem_cons.mp hds
    exact ((hd _ _ _ _).andThen (ih hds _)).continues

include hds in
theorem layBelow_continues (follow : Nat) (indent : Int) (c : Cursor) :
    (layBelow limits follow indent ds c).Continues limits.discipline := by
  induction ds generalizing c with
  | nil => exact .inl rfl
  | cons d ds ih =>
    obtain ⟨hd, hds⟩ := List.forall_mem_cons.mp hds
    exact (Laid.parts_below indent true d c).andThen ((hd _ _ _ _).andThen (ih hds _))

include hds in
theorem layFill_continues (follow : Nat) (indent : Int) (spaced : Bool)
    (startLine : Nat) (c : Cursor) :
    (layFill limits follow indent spaced startLine ds c).Continues limits.discipline := by
  induction ds generalizing startLine c with
  | nil => exact .inl rfl
  | cons d ds ih =>
    obtain ⟨hd, hds⟩ := List.forall_mem_cons.mp hds
    rw [layFill]
    split
    · exact ((hd _ _ _ _).andThen (ih hds _ _)).continues
    · exact (Laid.parts_below indent true d c).andThen ((hd _ _ _ _).andThen (ih hds _ _))

end

theorem Doc.Solid.inks {d : Doc} (hd : d.Solid) (hleaves : ∀ s ∈ d.leaves, s ≠ "") (limits : Limits)
    (follow : Nat) (indent : Int) (fit : Fit) (c : Cursor) :
    (d.lay limits follow indent fit c).Inks limits.discipline c := by
  induction hd generalizing follow indent fit c with
  | text s =>
    have hs : s ≠ "" := hleaves s (by simp [leaves])
    exact ⟨[.text s], write_chunks hs c, .text s⟩
  | nested _ _ ih => exact ih hleaves _ _ _ _
  | @joined l r spaced _ _ ihl ihr =>
    rw [leaves, List.forall_mem_append] at hleaves
    rw [Doc.lay]
    exact (ihl hleaves.1 _ _ _ _).andThen (ihr hleaves.2 _ _ _ _).continues
  | @stacked u l overlap _ _ ihu ihl =>
    rw [leaves, List.forall_mem_append] at hleaves
    rw [Doc.lay]
    exact (ihu hleaves.1 _ _ _ _).andThen
      ((Laid.parts_below indent overlap l _).andThen (ihl hleaves.2 _ _ _ _))
  | @grouped ds fill spaced hlength _ ih =>
    have hinks : ∀ d ∈ ds, ∀ follow indent fit c,
        (d.lay limits follow indent fit c).Inks limits.discipline c := by
      intro d hd
      apply ih d hd
      intro s hs
      apply hleaves s
      rw [leaves, leavesAll_eq]
      exact List.mem_flatMap_of_mem hd hs
    cases ds with
    | nil => simp at hlength
    | cons m ms =>
      obtain ⟨hm, hms⟩ := List.forall_mem_cons.mp hinks
      rw [Doc.lay]
      split_ifs
      · exact (hm _ _ _ _).andThen (layFlat_continues hms _ _ _)
      · exact (hm _ _ _ _).andThen (layFill_continues hms _ _ _ _ _)
      · exact (hm _ _ _ _).andThen (layBelow_continues hms _ _ _)

theorem Laid.Inks.head?_eq {discipline : Discipline} {c : Cursor} {x : Laid}
    (hx : x.Inks discipline c) :
    (∃ s, x.2.head? = some (.text s)) ∨ 0 < c.owed ∧ x.2.head? = some (.spaces c.owed) := by
  obtain ⟨cs, hcs, hlines⟩ := hx
  rw [hcs]
  unfold padding
  split_ifs with howed
  · exact .inl hlines.head?_eq
  · exact .inr ⟨Nat.pos_of_ne_zero howed, rfl⟩

theorem Laid.Inks.getLast?_eq {discipline : Discipline} {c : Cursor} {x : Laid}
    (hx : x.Inks discipline c) : ∃ s, x.2.getLast? = some (.text s) := by
  obtain ⟨cs, hcs, hlines⟩ := hx
  obtain ⟨s, hs⟩ := hlines.getLast?_eq
  exact ⟨s, by rw [hcs, List.getLast?_append, hs]; rfl⟩

theorem Laid.Inks.isChain {discipline : Discipline} {c : Cursor} {x : Laid}
    (hx : x.Inks discipline c) : x.2.IsChain fun a b => a = .newline → b.StartsLine discipline := by
  obtain ⟨cs, hcs, hlines⟩ := hx
  obtain ⟨s, hs⟩ := hlines.head?_eq
  have hpad : (padding c.owed).IsChain fun a b => a = .newline → b.StartsLine discipline := by
    unfold padding
    split_ifs <;> simp
  rw [hcs]
  refine hpad.append hlines.isChain fun a _ b hb _ => ?_
  rw [hs, Option.mem_some] at hb
  rw [← hb]
  trivial

/-- Two neighbouring pieces of which the first is a line break. -/
theorem Laid.Inks.startsLine {discipline : Discipline} {c : Cursor} {x : Laid}
    (hx : x.Inks discipline c) {b : Chunk} (hb : [.newline, b] <:+: x.2) :
    b.StartsLine discipline := by
  have hpair := List.IsChain.infix hx.isChain hb
  exact List.isChain_pair.mp hpair rfl

theorem Laid.Inks.newline_notMem {c : Cursor} {x : Laid} (hx : x.Inks .oneLine c) :
    .newline ∉ x.2 := by
  obtain ⟨cs, hcs, hlines⟩ := hx
  rw [hcs, List.mem_append, not_or]
  refine ⟨?_, hlines.newline_notMem⟩
  unfold padding
  split_ifs <;> simp

/-! ### Widths count on a page only -/

section

variable {limits limits' : Limits} (hsame : limits'.discipline = limits.discipline)
  (hoff : limits.discipline ≠ .page)

include hsame hoff

theorem Cursor.fits_congr (width : Nat) (c : Cursor) :
    c.fits limits' width = c.fits limits width := by
  unfold Cursor.fits
  rw [hsame]
  cases hd : limits.discipline with
  | page => exact absurd hd hoff
  | _ => rfl

theorem joins_congr (c : Cursor) (after : List Task) (spaced : Bool) (d : Doc) (ds : List Doc)
    (startLine : Nat) :
    joins limits' c after spaced d ds startLine = joins limits c after spaced d ds startLine := by
  simp only [joins, Cursor.fits_congr hsame hoff]

theorem step_congr (c : Cursor) (after : List Task) (t : Task) :
    step limits' c after t = step limits c after t := by
  cases t with
  | fill indent spaced rest startLine =>
    cases rest with
    | nil => rfl
    | cons d ds =>
      simp only [step, fillNext]
      rw [joins_congr hsame hoff, hsame]
  | _ => simp only [step, renderNode, hsame, Cursor.fits_congr hsame hoff]

theorem run_congr (c : Cursor) (tasks : List Task) : run limits' c tasks = run limits c tasks := by
  fun_induction run limits c tasks with
  | case1 => rw [run]
  | case2 c t after o ih => rw [run, step_congr hsame hoff, ih]

end

/-! ### The lines of a document -/

theorem Doc.Built.exists_inks {d : Doc} (hd : d.Built) (hne : ¬ d.isEmpty)
    (hleaves : ∀ s ∈ d.leaves, s ≠ "") (style : Style) :
    ∃ x : Laid, d.chunks style = x.2 ∧ x.Inks style.discipline (.start style.discipline d) :=
  ⟨_, chunks_eq_lay style d, (hd.sound.solid hne).inks hleaves style.limits 0 0 .broken _⟩

theorem Doc.chunks_of_isEmpty {d : Doc} (hd : d.isEmpty) (style : Style) : d.chunks style = [] := by
  cases d with
  | empty => rw [chunks_eq_lay, Doc.lay]
  | _ => cases hd

theorem Doc.chunks_congr {style style' : Style} (hsame : style'.discipline = style.discipline)
    (hoff : style.discipline ≠ .page) (d : Doc) : d.chunks style' = d.chunks style := by
  have hlimits : style'.limits.discipline = style.limits.discipline := hsame
  rw [Doc.chunks, Doc.chunks, run_congr hlimits hoff, hsame]

/-- Where no text is empty, a line break stands between two texts and before the second only the
indentation of a page. One line has none, and off the page the widths do not count. -/
theorem line_starts_are_clean {d : Doc} (hd : d.Built) (hleaves : ∀ s ∈ d.leaves, s ≠ "")
    (style : Style) :
    (d.chunks style).head? ≠ some .newline ∧ (d.chunks style).getLast? ≠ some .newline ∧
      ¬ [.newline, .newline] <:+: d.chunks style ∧
      (style.discipline = .left → ∀ n, (d.chunks style).head? ≠ some (.spaces n) ∧
        ¬ [.newline, .spaces n] <:+: d.chunks style) ∧
      (style.discipline = .oneLine → .newline ∉ d.chunks style) ∧
      (style.discipline ≠ .page → ∀ style' : Style, style'.discipline = style.discipline →
        d.chunks style' = d.chunks style) := by
  have hwidths : style.discipline ≠ .page → ∀ style' : Style, style'.discipline = style.discipline →
      d.chunks style' = d.chunks style := fun hoff _ hsame => Doc.chunks_congr hsame hoff d
  by_cases hne : d.isEmpty
  · simp [Doc.chunks_of_isEmpty hne]
  obtain ⟨x, hx, hinks⟩ := hd.exists_inks hne hleaves style
  obtain ⟨s, hlast⟩ := hinks.getLast?_eq
  refine ⟨?_, ?_, ?_, ?_, ?_, hwidths⟩ <;> rw [hx]
  · rcases hinks.head?_eq with ⟨s, hs⟩ | ⟨-, hs⟩ <;> simp [hs]
  · simp [hlast]
  · exact fun htwo => hinks.startsLine htwo
  · intro hleft n
    refine ⟨?_, fun hspaces => ?_⟩
    · rcases hinks.head?_eq with ⟨s, hs⟩ | ⟨howed, -⟩
      · simp [hs]
      · simp [Cursor.start, hleft] at howed
    · have hpage : style.discipline = .page := hinks.startsLine hspaces
      simp [hleft] at hpage
  · intro hone
    rw [hone] at hinks
    exact hinks.newline_notMem

/-- An indented line below another, with the indentation dropped. -/
theorem nested_line_starts_at_the_margin :
    let d := (Doc.text "where").stack false ((Doc.text "x").nest 4)
    let style : Style := { discipline := .left }
    d.chunks style = [.text "where", .newline, .text "x"] ∧
      ∀ n, (d.chunks style).head? ≠ some (.spaces n) ∧
      ¬ [.newline, .spaces n] <:+: d.chunks style := by
  intro d style
  have hbuilt : d.Built := .stack false (.text "where") (.nest 4 (.text "x"))
  have hleaves : ∀ s ∈ d.leaves, s ≠ "" := by decide
  exact ⟨by decide +kernel, (line_starts_are_clean hbuilt hleaves style).2.2.2.1 rfl⟩

end Offside
