import Offside.Proofs.Built
import Offside.Proofs.Hanging
import Offside.Proofs.StackedLines
import Offside.Text.Blank

/-!
# How the lines of a layout end

The machine owes its spaces until the next text, so a line can only end in a blank if a text does.
Of the texts in printed documents only the space after an opening brace does, and what follows it on
the same line decides: if that is the empty text above a line break, the line ends in the brace and
the space. All other lines are empty or end in a character that is not blank.
-/
namespace Offside

open Doc Text

/-! ### Lines -/

namespace Chunk

/-- The lines that some pieces complete, the first of them begun with `line`. -/
def completed (line : List Char) : List Chunk → List (List Char)
  | [] => []
  | .newline :: cs => line :: completed [] cs
  | .text s :: cs => completed (line ++ s.toList) cs
  | .spaces n :: cs => completed (line ++ List.replicate n ' ') cs

/-- The line that some pieces leave behind, if they go on with `line`. -/
def pending (line : List Char) : List Chunk → List Char
  | [] => line
  | .newline :: cs => pending [] cs
  | .text s :: cs => pending (line ++ s.toList) cs
  | .spaces n :: cs => pending (line ++ List.replicate n ' ') cs

@[simp] theorem completed_append (line : List Char) (cs ds : List Chunk) :
    completed line (cs ++ ds) = completed line cs ++ completed (pending line cs) ds := by
  fun_induction pending line cs with
  | case1 => rfl
  | case2 line cs ih => simp [completed, ih]
  | case3 line s cs ih => simp [completed, ih]
  | case4 line n cs ih => simp [completed, ih]

@[simp] theorem pending_append (line : List Char) (cs ds : List Chunk) :
    pending line (cs ++ ds) = pending (pending line cs) ds := by
  fun_induction pending line cs with
  | case1 => rfl
  | case2 line cs ih => simp [pending, ih]
  | case3 line s cs ih => simp [pending, ih]
  | case4 line n cs ih => simp [pending, ih]

theorem intercalate_lines (line : List Char) (cs : List Chunk) :
    ['\n'].intercalate (completed line cs ++ [pending line cs]) = line ++ (textOf cs).toList := by
  fun_induction pending line cs with
  | case1 line => simp [completed, textOf]
  | case2 line cs ih =>
    have htext : textOf (.newline :: cs) = "\n" ++ textOf cs := textOf_append [.newline] cs
    obtain ⟨l, ls, hl⟩ : ∃ l ls, completed [] cs ++ [pending [] cs] = l :: ls :=
      List.exists_cons_of_ne_nil (by simp)
    rw [htext, completed, List.cons_append, hl, List.intercalate_cons_cons, ← hl, ih]
    simp
  | case3 line s cs ih =>
    have htext : textOf (.text s :: cs) = s ++ textOf cs := textOf_append [.text s] cs
    rw [htext, completed, ih]
    simp
  | case4 line n cs ih =>
    have htext : textOf (.spaces n :: cs) = String.ofList (List.replicate n ' ') ++ textOf cs :=
      textOf_append [.spaces n] cs
    rw [htext, completed, ih]
    simp

theorem newline_notMem_lines {line : List Char} {cs : List Chunk} (hline : '\n' ∉ line)
    (hcs : ∀ s ∈ texts cs, '\n' ∉ s.toList) :
    ∀ l ∈ completed line cs ++ [pending line cs], '\n' ∉ l := by
  fun_induction pending line cs with
  | case1 line => simpa [completed] using hline
  | case2 line cs ih =>
    rw [completed, List.cons_append, List.forall_mem_cons]
    exact ⟨hline, ih (by simp) hcs⟩
  | case3 line s cs ih =>
    obtain ⟨hs, hcs⟩ := List.forall_mem_cons.mp hcs
    exact ih (by simp [hline, hs]) hcs
  | case4 line n cs ih => exact ih (by simp [hline]) hcs

/-- The lines of a text are those that its pieces complete and the one that they leave behind. -/
theorem splitOn_textOf {cs : List Chunk} (hcs : ∀ s ∈ texts cs, '\n' ∉ s.toList) :
    (textOf cs).toList.splitOn '\n' = completed [] cs ++ [pending [] cs] := by
  rw [← List.splitOn_intercalate '\n' (newline_notMem_lines (by simp) hcs) (by simp),
    intercalate_lines]
  rfl

end Chunk

open Chunk

theorem Cursor.completed_write (s : String) (c : Cursor) (line : List Char) :
    completed line (c.write s).2 = [] := by
  unfold Cursor.write
  split_ifs <;> rfl

/-- A text that is not empty is written after the spaces that are owed. -/
theorem Cursor.pending_write {s : String} (hs : s ≠ "") (c : Cursor) (line : List Char) :
    pending line (c.write s).2 = line ++ List.replicate c.owed ' ' ++ s.toList := by
  rw [Cursor.write, if_neg (by simpa using hs)]
  split_ifs with howed
  · simp [pending, howed]
  · simp [pending]

theorem Cursor.owed_write {s : String} (hs : s ≠ "") (c : Cursor) : (c.write s).1.owed = 0 := by
  rw [Cursor.write, if_neg (by simpa using hs)]
  split_ifs with howed
  · exact howed
  · rfl

/-! ### Texts and line ends -/

/-- A text of one line that does not end in a blank. -/
def IsSolid (s : String) : Prop := IsWord s ∧ s.toList.getLast?.any (fun c => !isBlank c) = true

instance (s : String) : Decidable (IsSolid s) := inferInstanceAs (Decidable (_ ∧ _))

/-- The line is empty or ends in a character that is not blank. -/
def EndsClean (line : List Char) : Prop := ∀ c ∈ line.getLast?, isBlank c = false

/-- The line ends in an opening brace and a space. -/
def EndsOpen (line : List Char) : Prop := ['\x7b', ' '] <:+ line

theorem EndsOpen.not_clean {line : List Char} (h : EndsOpen line) : ¬ EndsClean line := by
  obtain ⟨before, rfl⟩ := h
  intro hclean
  exact absurd (hclean ' ' (by simp)) (by decide)

theorem eq_nil_of_blank {line : List Char} (hends : EndsClean line ∨ EndsOpen line)
    (hblank : ∀ c ∈ line, isBlank c = true) : line = [] := by
  rcases hends with hclean | ⟨before, rfl⟩
  · by_contra hne
    have hlast := hclean _ (List.getLast?_eq_some_getLast hne)
    rw [hblank _ (List.getLast_mem hne)] at hlast
    contradiction
  · exact absurd (hblank '\x7b' (by simp)) (by decide)

theorem endsClean_nil : EndsClean [] := by
  simp [EndsClean]

theorem IsSolid.endsClean {s : String} (hs : IsSolid s) (line : List Char) :
    EndsClean (line ++ s.toList) := by
  obtain ⟨-, hlast⟩ := hs
  obtain ⟨d, hd, hblank⟩ := (Option.any_eq_true _ _).mp hlast
  intro c hc
  rw [List.getLast?_append, hd] at hc
  obtain rfl : d = c := by simpa using hc
  simpa using hblank

theorem IsSolid.ne_space {s : String} (hs : IsSolid s) : s ≠ " " := by
  rintro rfl
  exact absurd hs (by decide)

/-- The last of the texts is solid. -/
def EndsSolid (ss : List String) : Prop := ∃ s ∈ ss.getLast?, IsSolid s

theorem EndsSolid.append_left {ts : List String} (hts : EndsSolid ts) (ss : List String) :
    EndsSolid (ss ++ ts) := by
  obtain ⟨s, hs, hsolid⟩ := hts
  exact ⟨s, List.mem_getLast?_append_of_mem_getLast? hs, hsolid⟩

theorem EndsSolid.last_ne_space {ss : List String} (hss : EndsSolid ss) :
    ∀ s ∈ ss.getLast?, s ≠ " " := by
  obtain ⟨s, hs, hsolid⟩ := hss
  intro t ht
  rw [Option.mem_unique ht hs]
  exact hsolid.ne_space

theorem EndsSolid.ne_nil {ss : List String} (hss : EndsSolid ss) : ss ≠ [] := by
  obtain ⟨s, hs, -⟩ := hss
  exact List.ne_nil_of_mem (List.mem_of_mem_getLast? hs)

/-- No space stands before an empty text. -/
def Calm (ss : List String) : Prop := ss.IsChain fun s t => ¬ (s = " " ∧ t = "")

theorem calm_append {ss ts : List String} (hss : ∀ s ∈ ss.getLast?, s ≠ " ") :
    Calm (ss ++ ts) ↔ Calm ss ∧ Calm ts := by
  unfold Calm
  rw [List.isChain_append]
  constructor
  · rintro ⟨hs, ht, -⟩
    exact ⟨hs, ht⟩
  · rintro ⟨hs, ht⟩
    exact ⟨hs, ht, fun x hx y _ h => hss x hx h.1⟩

theorem calm_cons_of_ne {s : String} (hs : s ≠ " ") (ss : List String) :
    Calm (s :: ss) ↔ Calm ss := by
  unfold Calm
  rw [List.isChain_cons]
  exact ⟨fun h => h.2, fun h => ⟨fun _ _ h => hs h.1, h⟩⟩

theorem calm_space_cons (ss : List String) : Calm (" " :: ss) ↔ ss.head? ≠ some "" ∧ Calm ss := by
  unfold Calm
  rw [List.isChain_cons]
  apply and_congr_left
  intro _
  constructor
  · intro h hhead
    exact h "" hhead ⟨rfl, rfl⟩
  · rintro h t ht ⟨-, rfl⟩
    exact h ht

/-! ### What some texts do to the lines -/

/-- The pieces `cs`, written for the texts `ss` after `line`, leave a clean line. The lines that
they complete are clean too, except for those that end in an opening brace and a space. There is one
of these exactly if the texts hold an empty one right after a space, or start with one right after
the space of `line`. -/
structure Ends (discipline : Discipline) (line : List Char) (ss : List String)
    (cs : List Chunk) : Prop where
  pending : EndsClean (pending line cs)
  completed : ∀ l ∈ completed line cs, EndsClean l ∨ EndsOpen l
  open_iff : (∃ l ∈ Chunk.completed line cs, EndsOpen l) ↔
    discipline ≠ .oneLine ∧ (EndsOpen line ∧ ss.head? = some "" ∨ ¬ Calm ss)

namespace Ends

variable {discipline : Discipline} {line : List Char} {ss ts : List String} {cs ds : List Chunk}

theorem nil (hline : EndsClean line) : Ends discipline line [] [] where
  pending := hline
  completed := by simp [Chunk.completed]
  open_iff := by simp [Chunk.completed, Calm]

theorem append (hss : Ends discipline line ss cs) (hsolid : EndsSolid ss)
    (hts : Ends discipline (Chunk.pending line cs) ts ds) :
    Ends discipline line (ss ++ ts) (cs ++ ds) := by
  have hhead : (ss ++ ts).head? = ss.head? := List.head?_append_of_ne_nil _ hsolid.ne_nil
  have hclean : ¬ EndsOpen (Chunk.pending line cs) := fun h => h.not_clean hss.pending
  constructor
  · rw [pending_append]
    exact hts.pending
  · rw [completed_append, List.forall_mem_append]
    exact ⟨hss.completed, hts.completed⟩
  · have hsplit : (∃ l ∈ Chunk.completed line (cs ++ ds), EndsOpen l) ↔
        (∃ l ∈ Chunk.completed line cs, EndsOpen l) ∨
        ∃ l ∈ Chunk.completed (Chunk.pending line cs) ds, EndsOpen l := by
      simp [or_and_right, exists_or]
    rw [hsplit, hss.open_iff, hts.open_iff, hhead, calm_append hsolid.last_ne_space]
    tauto

/-- A clean line may be left for the next one before the texts. -/
theorem glue (hline : EndsClean line) {gap : List Chunk} (hgap : gap = [] ∨ gap = [.newline])
    (hss : Ends discipline (Chunk.pending line gap) ss cs) :
    Ends discipline line ss (gap ++ cs) := by
  rcases hgap with rfl | rfl
  · exact hss
  · have hopen : ¬ EndsOpen line := fun h => h.not_clean hline
    have hnil : ¬ EndsOpen [] := fun h => h.not_clean endsClean_nil
    constructor
    · exact hss.pending
    · exact List.forall_mem_cons.mpr ⟨.inl hline, hss.completed⟩
    · have := hss.open_iff
      simp only [Chunk.pending] at this
      simp only [List.singleton_append, Chunk.completed, List.exists_mem_cons_iff,
        this, hopen, hnil]
      tauto

theorem text {s : String} (hs : IsSolid s) (c : Cursor) :
    Ends discipline line [s] (c.write s).2 := by
  have hne : s ≠ "" := hs.1.1
  constructor
  · rw [c.pending_write hne]
    exact hs.endsClean _
  · simp [c.completed_write]
  · simp [c.completed_write, Calm, hne]

/-- An opening brace and a space stand before texts that go on with them. -/
theorem opened (line : List Char) (c : Cursor)
    (hss : ∀ before, Ends discipline (before ++ ['\x7b', ' ']) ss cs) :
    Ends discipline line ("\x7b" :: " " :: ss)
      ((c.write "\x7b").2 ++ (((c.write "\x7b").1.write " ").2 ++ cs)) := by
  let before := line ++ List.replicate c.owed ' '
  have hbrace : Chunk.pending line (c.write "\x7b").2 = before ++ ['\x7b'] :=
    c.pending_write (by decide) line
  have hspace : Chunk.pending (before ++ ['\x7b'])
      ((c.write "\x7b").1.write " ").2 = before ++ ['\x7b', ' '] := by
    rw [Cursor.pending_write (by decide), c.owed_write (by decide)]
    simp
  have hcompleted :
      Chunk.completed line ((c.write "\x7b").2 ++ (((c.write "\x7b").1.write " ").2 ++ cs)) =
      Chunk.completed (before ++ ['\x7b', ' ']) cs := by
    simp only [completed_append, Cursor.completed_write, hbrace, hspace, List.nil_append]
  have hopen : EndsOpen (before ++ ['\x7b', ' ']) := ⟨before, rfl⟩
  constructor
  · simp only [pending_append, hbrace, hspace]
    exact (hss before).pending
  · rw [hcompleted]
    exact (hss before).completed
  · rw [hcompleted, (hss before).open_iff, calm_cons_of_ne (by decide), calm_space_cons]
    have : ("\x7b" :: " " :: ss).head? ≠ some "" := by simp
    tauto

/-- An empty text stands above what follows on the next line. -/
theorem blank (hdiscipline : discipline ≠ .oneLine) (hline : EndsClean line ∨ EndsOpen line)
    (hss : Ends discipline [] ss cs) : Ends discipline line ("" :: ss) (.newline :: cs) := by
  have hnil : ¬ EndsOpen [] := fun h => h.not_clean endsClean_nil
  constructor
  · exact hss.pending
  · exact List.forall_mem_cons.mpr ⟨hline, hss.completed⟩
  · rw [Chunk.completed, List.exists_mem_cons_iff, hss.open_iff, calm_cons_of_ne (by decide)]
    simp only [List.head?_cons]
    tauto

/-- An empty text stands before what follows on the same line. -/
theorem silent (hss : Ends .oneLine line ss cs) : Ends .oneLine line ("" :: ss) cs where
  pending := hss.pending
  completed := hss.completed
  open_iff := by simpa using hss.open_iff

end Ends

/-! ### Tidy documents -/

/-- The documents that the printers build from solid texts. An empty text only stands above a
document that starts at its own column, and a space only after an opening brace. -/
inductive Doc.Tidy : Doc → Prop where
  | text {s : String} (hs : IsSolid s) : Tidy (.text s)
  | nested (k : Int) {d : Doc} (hd : d.Tidy) : Tidy (.nested k d)
  | joined {l r : Doc} (hl : l.Tidy) (spaced : Bool) (hr : r.Tidy) : Tidy (.joined l spaced r)
  | stacked {u l : Doc} (hu : u.Tidy) (overlap : Bool) (hl : l.Tidy) : Tidy (.stacked u overlap l)
  | blankLine {d : Doc} (hlead : d.lead = 0) (hd : d.Tidy) : Tidy (.stacked (.text "") true d)
  | hollow : Tidy (.joined (.joined (.text "\x7b") false (.text " ")) false (.text "\x7d"))
  | braced {d : Doc} (hd : d.Tidy) :
      Tidy (.joined (.joined (.text "\x7b") false (.joined (.text " ") false d)) false
        (.text "\x7d"))
  | grouped (fill spaced : Bool) {d : Doc} {ds : List Doc} (hd : d.Tidy) (hds : ∀ e ∈ ds, e.Tidy) :
      Tidy (.grouped fill spaced (d :: ds))

theorem EndsSolid.append_leavesAll {ds : List Doc} (hds : ∀ d ∈ ds, EndsSolid d.leaves)
    {ss : List String} (hss : EndsSolid ss) : EndsSolid (ss ++ leavesAll ds) := by
  induction ds generalizing ss with
  | nil => simpa [leavesAll] using hss
  | cons d ds ih =>
    obtain ⟨hd, hds⟩ := List.forall_mem_cons.mp hds
    rw [leavesAll, ← List.append_assoc]
    exact ih hds (hd.append_left ss)

theorem Doc.Tidy.endsSolid {d : Doc} (hd : d.Tidy) : EndsSolid d.leaves := by
  induction hd with
  | @text s hs => exact ⟨s, rfl, hs⟩
  | nested k _ ih => exact ih
  | joined _ spaced _ _ ih => exact ih.append_left _
  | stacked _ overlap _ _ ih => exact ih.append_left _
  | blankLine _ _ ih => exact ih.append_left _
  | hollow => exact ⟨"\x7d", rfl, by decide⟩
  | braced _ _ => exact .append_left ⟨"\x7d", rfl, by decide⟩ _
  | grouped fill spaced _ _ ihd ihds => exact ihd.append_leavesAll ihds

theorem Doc.Tidy.plain {d : Doc} (hd : d.Tidy) : d.Plain := by
  have happend {l r : Doc} (hl : l.Plain) (hr : r.Plain) :
      ∀ s ∈ l.leaves ++ r.leaves, '\n' ∉ s.toList :=
    List.forall_mem_append.mpr ⟨hl, hr⟩
  induction hd with
  | text hs => simpa [Plain, leaves] using hs.1.2
  | nested k _ ih => exact ih
  | joined _ spaced _ ihl ihr => exact happend ihl ihr
  | stacked _ overlap _ ihu ihl => exact happend ihu ihl
  | blankLine _ _ ih => exact happend (by simp [Plain, leaves]) ih
  | hollow => simp [Plain, leaves]
  | braced _ ih =>
    intro s hs
    simp only [leaves, List.mem_append, List.mem_singleton] at hs
    rcases hs with (rfl | rfl | hs) | rfl
    · decide
    · decide
    · exact ih s hs
    · decide
  | grouped fill spaced _ _ ihd ihds =>
    intro s hs
    rw [leaves, leavesAll_eq, List.mem_flatMap] at hs
    obtain ⟨e, he, hs⟩ := hs
    exact List.forall_mem_cons.mpr ⟨ihd, ihds⟩ e he s hs

/-! ### The layout of tidy documents -/

theorem le_below_column (discipline : Discipline) (indent : Int) (overlap : Bool)
    (d : Doc) (c : Cursor) : indent + d.lead ≤ (c.below discipline indent overlap d).1.column := by
  unfold Cursor.below
  dsimp only
  split
  · simp only [Cursor.advance]
    omega
  · rw [newline_column]
    omega

theorem below_chunks (discipline : Discipline) (indent : Int) (overlap : Bool)
    (d : Doc) (c : Cursor) :
    (c.below discipline indent overlap d).2 = [] ∨
      (c.below discipline indent overlap d).2 = [.newline] := by
  unfold Cursor.below Cursor.newline
  dsimp only
  split
  · exact .inl rfl
  · cases discipline <;> simp

theorem broken_of_flat?_eq_none {fit : Fit} {d : Doc} (hd : d.flat? = none)
    (hflat : fit = .flat → ∃ w, d.flat? = some w) : fit = .broken := by
  cases fit with
  | broken => rfl
  | flat => simp [hd] at hflat

/-- From every line that the printers leave behind, the document ends its lines as its texts say. -/
def Doc.EndsLines (limits : Limits) (d : Doc) : Prop :=
  ∀ {follow : Nat} {indent : Int} {fit : Fit} {c : Cursor} {line : List Char}, EndsClean line ∨
    EndsOpen line →
    (fit = .broken → indent + d.lead ≤ c.column) → (fit = .flat → ∃ w, d.flat? = some w) →
      Ends limits.discipline line d.leaves (d.lay limits follow indent fit c).2

namespace Doc.EndsLines

variable {limits : Limits} {line : List Char} {d l r : Doc} {ds : List Doc}

/-- A document below a clean line. -/
theorem below (hd : d.EndsLines limits) (hline : EndsClean line) (follow : Nat) (indent : Int)
    (overlap : Bool) (c : Cursor) :
    Ends limits.discipline line d.leaves (Laid.andThen (c.below limits.discipline indent overlap d)
      (d.lay limits follow indent .broken)).2 := by
  have hgap := below_chunks limits.discipline indent overlap d c
  refine .glue hline hgap (hd ?_ (fun _ => le_below_column ..) (by simp))
  rcases hgap with hgap | hgap <;> rw [hgap]
  · exact .inl hline
  · exact .inl endsClean_nil

theorem joined (hl : l.EndsLines limits) (hsolid : EndsSolid l.leaves) (spaced : Bool)
    (hr : r.EndsLines limits) : (joined l spaced r).EndsLines limits := by
  intro follow indent fit c line hline hcolumn hflat
  have hflat : fit = .flat → (∃ w, l.flat? = some w) ∧ ∃ w, r.flat? = some w := by
    intro hfit
    obtain ⟨w, hw⟩ := hflat hfit
    obtain ⟨a, b, ha, hb, -⟩ := flat?_joined_iff.mp hw
    exact ⟨⟨a, ha⟩, b, hb⟩
  have hleft :=
    @hl (gap spaced + r.ahead fit follow) indent fit c line hline hcolumn fun hfit => (hflat hfit).1
  refine hleft.append hsolid (hr (.inl hleft.pending) ?_ fun hfit => (hflat hfit).2)
  intro _
  omega

theorem stacked (hu : l.EndsLines limits) (hsolid : EndsSolid l.leaves) (overlap : Bool)
    (hl : r.EndsLines limits) : (stacked l overlap r).EndsLines limits := by
  intro follow indent fit c line hline hcolumn hflat
  have hbroken := broken_of_flat?_eq_none rfl hflat
  have hupper := @hu 0 indent .broken c line hline (fun _ => hcolumn hbroken) (by simp)
  exact hupper.append hsolid (hl.below hupper.pending follow indent overlap _)

/-- A line is left behind for the empty text, whatever stands on it. -/
theorem blankLine (hlead : d.lead = 0) (hd : d.EndsLines limits) :
    (Doc.stacked (.text "") true d).EndsLines limits := by
  intro follow indent fit c line hline hcolumn hflat
  have hbelow : c.below limits.discipline indent true d = c.newline limits.discipline indent := by
    have hle : indent ≤ c.column := by
      simpa [lead] using hcolumn (broken_of_flat?_eq_none rfl hflat)
    simp [Cursor.below, hlead, hle]
  have hrest {line : List Char} (hline : EndsClean line ∨ EndsOpen line) :=
    @hd follow indent .broken
    (c.below limits.discipline indent true d).1 line hline (fun _ => le_below_column ..) (by simp)
  have hlay : (Doc.stacked (.text "") true d).lay limits follow indent fit c =
      Laid.andThen (c.newline limits.discipline indent) (d.lay limits follow indent .broken) := by
    rw [← hbelow]
    rfl
  rw [hbelow] at hrest
  rw [hlay, Laid.andThen_snd]
  cases hdiscipline : limits.discipline with
  | oneLine =>
    rw [hdiscipline] at hrest
    exact .silent (hrest hline)
  | page =>
    rw [hdiscipline] at hrest
    exact .blank (by decide) hline (hrest (.inl endsClean_nil))
  | left =>
    rw [hdiscipline] at hrest
    exact .blank (by decide) hline (hrest (.inl endsClean_nil))

theorem hollow :
    EndsLines limits (.joined (.joined (.text "\x7b") false (.text " ")) false (.text "\x7d")) := by
  intro follow indent fit c line _ _ _
  have hclosed :=
    Ends.opened line c fun before => @Ends.text limits.discipline (before ++ ['\x7b', ' ']) "\x7d"
    (by decide) ((c.write "\x7b").1.write " ").1
  rwa [← List.append_assoc] at hclosed

theorem braced (hd : d.EndsLines limits) (hsolid : EndsSolid d.leaves) :
    EndsLines limits (.joined (.joined (.text "\x7b") false (.joined (.text " ") false d)) false
      (.text "\x7d")) := by
  intro follow indent fit c line _ _ hflat
  have hflat : fit = .flat → ∃ w, d.flat? = some w := by
    intro hfit
    obtain ⟨w, hw⟩ := hflat hfit
    obtain ⟨a, -, ha, -, -⟩ := flat?_joined_iff.mp hw
    obtain ⟨-, b, -, hb, -⟩ := flat?_joined_iff.mp ha
    obtain ⟨-, e, -, he, -⟩ := flat?_joined_iff.mp hb
    exact ⟨e, he⟩
  let c' := ((c.write "\x7b").1.write " ").1
  let laid :=
    d.lay limits (gap false + (Doc.text "\x7d").ahead fit follow) (c'.column - d.lead) fit c'
  have hinside (before : List Char) :
      Ends limits.discipline (before ++ ['\x7b', ' ']) d.leaves laid.2 :=
    hd (.inr ⟨before, rfl⟩) (fun _ => by omega) hflat
  have hclosed := Ends.opened line c fun before =>
    (hinside before).append hsolid (.text (s := "\x7d") (by decide) laid.1)
  simpa [Doc.lay, leaves, Cursor.skip] using hclosed

section

variable (hds : ∀ d ∈ ds, d.EndsLines limits ∧ EndsSolid d.leaves)
include hds

theorem layFlat {spaced : Bool} {w : Nat} (hw : flatSum? ds = some w) (hline : EndsClean line)
    (follow : Nat) (c : Cursor) :
    Ends limits.discipline line (leavesAll ds) (layFlat limits follow spaced ds c).2 := by
  induction ds generalizing w line c with
  | nil => exact .nil hline
  | cons d ds ih =>
    obtain ⟨a, b, ha, hb, -⟩ := flatSum?_cons_iff.mp hw
    obtain ⟨⟨hd, hsolid⟩, hds⟩ := List.forall_mem_cons.mp hds
    have hfirst :=
      @hd (aheadAll spaced follow ds) 0 .flat (c.skip spaced) line (.inl hline) (by simp)
        fun _ => ⟨a, ha⟩
    exact hfirst.append hsolid (ih hds hb hfirst.pending _)

theorem layBelow (hline : EndsClean line) (follow : Nat) (indent : Int) (c : Cursor) :
    Ends limits.discipline line (leavesAll ds) (layBelow limits follow indent ds c).2 := by
  induction ds generalizing line c with
  | nil => exact .nil hline
  | cons d ds ih =>
    obtain ⟨⟨hd, hsolid⟩, hds⟩ := List.forall_mem_cons.mp hds
    have hfirst := hd.below hline (followLast follow ds) indent true c
    rw [Offside.layBelow, ← Laid.andThen_assoc]
    exact hfirst.append hsolid (ih hds hfirst.pending _)

theorem layFill {spaced : Bool} (hline : EndsClean line) (follow : Nat) (indent : Int)
    (startLine : Nat) (c : Cursor) :
    Ends limits.discipline line (leavesAll ds)
      (layFill limits follow indent spaced startLine ds c).2 := by
  induction ds generalizing line startLine c with
  | nil => exact .nil hline
  | cons d ds ih =>
    obtain ⟨⟨hd, hsolid⟩, hds⟩ := List.forall_mem_cons.mp hds
    rw [Offside.layFill]
    split
    · next hjoins =>
      obtain ⟨w, hw, -⟩ := (Option.any_eq_true _ _).mp (Bool.and_eq_true_iff.mp hjoins).2
      have hfirst :=
        @hd (followLast follow ds) indent .flat (c.skip spaced) line (.inl hline) (by simp)
        fun _ => ⟨w, hw⟩
      exact hfirst.append hsolid (ih hds hfirst.pending _ _)
    · have hfirst := hd.below hline (followLast follow ds) indent true c
      rw [Laid.andThen_snd, Laid.andThen_snd, ← List.append_assoc]
      exact hfirst.append hsolid (ih hds hfirst.pending _ _)

theorem grouped (fill spaced : Bool) (hd : d.EndsLines limits) (hsolid : EndsSolid d.leaves) :
    (grouped fill spaced (d :: ds)).EndsLines limits := by
  intro follow indent fit c line hline hcolumn hflat
  rw [Doc.lay]
  split
  · next hchoice =>
    obtain ⟨w, hw, -⟩ := flat_choice hflat hchoice
    obtain ⟨a, b, ha, hb, -⟩ := flat?_grouped_iff.mp hw
    have hfirst := @hd (aheadAll spaced follow ds) 0 .flat c line hline (by simp) fun _ => ⟨a, ha⟩
    exact hfirst.append hsolid (layFlat hds hb hfirst.pending follow _)
  · next hchoice =>
    have hbroken : fit = .broken := by
      cases fit with
      | broken => rfl
      | flat => simp at hchoice
    have hfirst :=
      @hd (followLast follow ds) indent .broken c line hline (fun _ => hcolumn hbroken) (by simp)
    refine hfirst.append hsolid ?_
    split
    · exact layFill hds hfirst.pending follow indent c.line _
    · exact layBelow hds hfirst.pending follow indent _

end

end Doc.EndsLines

/-- The last text of each part is solid, so the next part starts from a clean line, except after an
opening brace. -/
theorem Doc.Tidy.endsLines {limits : Limits} {d : Doc} (hd : d.Tidy) : d.EndsLines limits := by
  induction hd with
  | text hs => exact fun _ _ _ => .text hs _
  | nested k _ ih =>
    intro follow indent fit c line hline hcolumn hflat
    exact ih hline (fun hfit => by simpa [lead, add_assoc] using hcolumn hfit) hflat
  | joined hl spaced _ ihl ihr => exact EndsLines.joined ihl hl.endsSolid spaced ihr
  | stacked hu overlap _ ihu ihl => exact EndsLines.stacked ihu hu.endsSolid overlap ihl
  | blankLine hlead _ ih => exact EndsLines.blankLine hlead ih
  | hollow => exact EndsLines.hollow
  | braced hd ih => exact EndsLines.braced ih hd.endsSolid
  | grouped fill spaced hd hds ihd ihds =>
    exact EndsLines.grouped (fun e he => ⟨ihds e he, (hds e he).endsSolid⟩)
      fill spaced ihd hd.endsSolid

/-- Where the lines of a tidy document do not end cleanly they end in an opening brace and a space.
The page has such a line unless it is a single one or no space stands before an empty text. -/
theorem Doc.Tidy.lines_render {d : Doc} (hd : d.Tidy) (style : Style) :
    (∀ line ∈ (d.render style).toList.splitOn '\n', EndsClean line ∨ EndsOpen line) ∧
      ((∃ line ∈ (d.render style).toList.splitOn '\n', EndsOpen line) ↔
        style.discipline ≠ .oneLine ∧ ¬ Calm d.leaves) := by
  have hends : Ends style.discipline [] d.leaves (d.chunks style) := by
    have hlines : d.EndsLines style.limits := hd.endsLines
    rw [chunks_eq_lay]
    exact hlines (.inl endsClean_nil) (fun _ => by simp [Cursor.start]) (by simp)
  have hclean : ¬ EndsOpen (pending [] (d.chunks style)) := fun h => h.not_clean hends.pending
  have hnil : ¬ EndsOpen [] := fun h => h.not_clean endsClean_nil
  have hlines : (d.render style).toList.splitOn '\n' =
      completed [] (d.chunks style) ++ [pending [] (d.chunks style)] := by
    apply splitOn_textOf
    rw [texts_chunks]
    exact fun s hs => hd.plain s (List.mem_of_mem_filter hs)
  rw [hlines]
  constructor
  · simp only [List.forall_mem_append, List.forall_mem_singleton]
    exact ⟨hends.completed, .inl hends.pending⟩
  · simp [or_and_right, exists_or, hclean, hends.open_iff, hnil]

end Offside
