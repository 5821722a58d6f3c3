import Offside.Page.Renderer
import Offside.Proofs.Extent

/-!
# The renderer is the machine

As long as the numbers of a run fit their words, the renderer takes the steps of the machine and
hands out its pieces. They do if the extent of the document is below 2^63 and no width of the page
is a negative number from which columns are still to be taken away.
-/
namespace Offside

open Doc

/-! ### Words -/

theorem toInt_add_of_fits {a b : Int64} (hlow : -2 ^ 63 ≤ a.toInt + b.toInt)
    (hhigh : a.toInt + b.toInt < 2 ^ 63) : (a + b).toInt = a.toInt + b.toInt := by
  rw [Int64.toInt_add, Int.bmod_eq_of_le (by omega) (by omega)]

theorem toInt_sub_of_fits {a b : Int64} (hlow : -2 ^ 63 ≤ a.toInt - b.toInt)
    (hhigh : a.toInt - b.toInt < 2 ^ 63) : (a - b).toInt = a.toInt - b.toInt := by
  rw [Int64.toInt_sub, Int.bmod_eq_of_le (by omega) (by omega)]

theorem toInt_ofInt_of_fits {k : Int} (hlow : -2 ^ 63 ≤ k) (hhigh : k < 2 ^ 63) :
    (Int64.ofInt k).toInt = k := by
  rw [Int64.toInt_ofInt, Int.bmod_eq_of_le]
  · change -2 ^ 63 ≤ k
    exact hlow
  · change k < 2 ^ 63
    exact hhigh

theorem toInt_ofNat_of_lt {n : Nat} (h : n < 2 ^ 63) : (Int64.ofNat n).toInt = n := by
  rw [← Int64.ofInt_eq_ofNat, toInt_ofInt_of_fits (by omega) (by omega)]

theorem toNat_ofNat_of_lt {n : Nat} (h : n < 2 ^ 63) : (UInt64.ofNat n).toNat = n :=
  UInt64.toNat_ofNat_of_lt' (Nat.lt_trans h (by decide))

theorem toInt_max (a b : Int64) : (max a b).toInt = max a.toInt b.toInt := by
  have hmax : max a b = if a ≤ b then b else a := rfl
  rw [hmax, Int.max_def]
  simp only [Int64.le_iff_toInt_le]
  split_ifs <;> rfl

theorem toInt_min (a b : Int64) : (min a b).toInt = min a.toInt b.toInt := by
  have hmin : min a b = if a ≤ b then a else b := rfl
  rw [hmin, Int.min_def]
  simp only [Int64.le_iff_toInt_le]
  split_ifs <;> rfl

theorem toNat_toUInt64_of_nonneg {a : Int64} (h : 0 ≤ a.toInt) :
    a.toUInt64.toNat = a.toInt.toNat := by
  have hword : a.toInt = if 2 * a.toUInt64.toNat < 2 ^ 64 then (a.toUInt64.toNat : Int)
      else a.toUInt64.toNat - (2 ^ 64 : Nat) := BitVec.toInt_eq_toNat_cond a.toBitVec
  have hlt := a.toUInt64.toNat_lt
  split_ifs at hword <;> omega

/-! ### Sizes -/

theorem toInt_sizes_lead {d : Doc} (h : d.shift < 2 ^ 63) : d.sizes.lead.toInt = d.lead := by
  have := natAbs_lead_le_shift d
  rw [d.sizes_eq_measured]
  exact toInt_ofInt_of_fits (by omega) (by omega)

/-- The sizes of a document are the numbers that its measures are. -/
structure Sizes.Fit (sizes : Sizes) (d : Doc) : Prop where
  flat : sizes.flat.map UInt64.toNat = d.flat?
  lead : sizes.lead.toInt = d.lead
  first : sizes.first.toNat = d.first
  breaks : sizes.breaks = d.breaks

theorem sizes_fit {d : Doc} (hd : d.extent < 2 ^ 63) : d.sizes.Fit d := by
  rw [extent] at hd
  have hfirst := first_le_span d
  refine ⟨?_, toInt_sizes_lead (by omega), ?_, by rw [d.sizes_eq_measured]; rfl⟩
  · rw [d.sizes_eq_measured]
    cases hflat : d.flat? with
    | none => simp [measured, hflat]
    | some w =>
      have := flat?_le_span hflat
      simp only [measured, hflat, Option.map_some, toNat_ofNat_of_lt (n := w) (by omega)]
  · rw [d.sizes_eq_measured]
    exact toNat_ofNat_of_lt (by omega)

theorem Sizes.Fit.any_flat {sizes : Sizes} {d : Doc} (h : sizes.Fit d) (p : Nat → Bool) :
    (sizes.flat.any fun w => p w.toNat) = d.flat?.any p := by
  rw [← h.flat, Option.any_map]

/-- The column at which a document starts below, its target, is found without wrapping around. -/
theorem toInt_target {indent : Int64} {d : Doc} (h : indent.toInt.natAbs + d.shift < 2 ^ 63) :
    (indent + d.sizes.lead).toInt = indent.toInt + d.lead := by
  have := natAbs_lead_le_shift d
  have hlead := toInt_sizes_lead (d := d) (by omega)
  rw [toInt_add_of_fits, hlead] <;> omega

theorem sizes_ahead (fit : Fit) (d : Doc) (follow : Nat) :
    d.sizes.ahead fit (.ofNat follow) = .ofNat (d.ahead fit follow) := by
  rw [d.sizes_eq_measured]
  unfold measured Sizes.ahead ahead
  cases fit with
  | flat =>
    cases d.flat? with
    | none => cases hbreaks : d.breaks <;> simp [UInt64.ofNat_add]
    | some w => exact (UInt64.ofNat_add w follow).symm
  | broken => cases hbreaks : d.breaks <;> simp [UInt64.ofNat_add]

namespace Command

/-- The width that follows on the line is the word of the width that the tasks put there. -/
theorem restOfLine_eq_ofNat (ts : List Command) :
    restOfLine ts = .ofNat (Offside.restOfLine (ts.map task)) := by
  induction ts with
  | nil => rfl
  | cons t ts ih =>
    cases t with
    | render indent fit d =>
      rw [restOfLine, ih]
      exact sizes_ahead fit d _
    | align fit d =>
      rw [restOfLine, ih]
      exact sizes_ahead fit d _
    | space =>
      rw [restOfLine, ih, List.map_cons, task, restOfLine_space, UInt64.ofNat_add]
      rfl
    | below indent overlap d => rfl
    | fill indent spaced rest startLine =>
      cases rest with
      | nil => exact ih
      | cons d ds => rfl

end Command

/-! ### Renderers as states -/

namespace Renderer

def cursor (r : Renderer) : Cursor :=
  ⟨r.column.toInt, r.lineIndent.toInt, r.owed.toNat, r.line.toNat⟩

def state (r : Renderer) : State := ⟨r.cursor, r.tasks⟩

/-- The renderer finds room where the machine finds it under these limits. -/
structure Sees (limits : Limits) (r : Renderer) : Prop where
  discipline : r.discipline = limits.discipline
  fits : ∀ w : Nat, w < 2 ^ 63 → r.fits (.ofNat w) = r.cursor.fits limits w

/-- What the renderer leaves and hands out is what the machine leaves and writes. -/
structure Lays (x : Option Chunk × Renderer) (y : Laid) : Prop where
  cursor : x.2.cursor = y.1
  chunks : x.1.toList ++ x.2.held.toList = y.2

theorem Lays.push {x : Option Chunk × Renderer} {y : Laid} (h : Lays x y) (ts : List Command) :
    Lays (x.1, x.2.push ts) y := ⟨h.cursor, h.chunks⟩

section

variable {r : Renderer} (hheld : r.held = none)
include hheld

theorem lays_stay (ts : List Command) : Lays (none, r.push ts) (r.cursor, []) :=
  ⟨rfl, by simp [Renderer.push, hheld]⟩

theorem lays_write {s : String} (hcolumn : 0 ≤ r.column.toInt)
    (hfits : r.column.toInt + s.length < 2 ^ 63) : Lays (r.write s) (r.cursor.write s) := by
  have hadd : (r.column + .ofNat s.length).toInt = r.column.toInt + s.length := by
    have hlength := toInt_ofNat_of_lt (n := s.length) (by omega)
    rw [toInt_add_of_fits] <;> omega
  have howed : 0 < r.owed ↔ ¬ r.owed.toNat = 0 := by
    rw [UInt64.lt_iff_toNat_lt]
    exact Nat.pos_iff_ne_zero
  unfold write Cursor.write
  dsimp only
  by_cases hs : s.isEmpty
  · rw [if_pos hs, if_pos hs]
    have hzero : s.length = 0 := by simpa using hs
    refine ⟨?_, by simp [hheld]⟩
    simp [Renderer.cursor, hzero]
  · rw [if_neg hs, if_neg hs]
    by_cases hnone : r.owed.toNat = 0
    · rw [if_neg (by simpa [howed] using hnone), if_pos (by simpa [Renderer.cursor] using hnone)]
      exact ⟨by simp [Renderer.cursor, hadd], by simp [hheld]⟩
    · rw [if_pos (howed.mpr hnone), if_neg (by simpa [Renderer.cursor] using hnone)]
      exact ⟨by simp [Renderer.cursor, hadd], by simp [Renderer.cursor]⟩

theorem lays_advance {n : Int64} (hn : 0 ≤ n.toInt) (hcolumn : 0 ≤ r.column.toInt)
    (hfits : r.column.toInt + n.toInt < 2 ^ 63) (howed : r.owed.toNat ≤ r.column.toInt + 1) :
    Lays (none, r.advance n) (r.cursor.advance n.toInt.toNat, []) := by
  unfold advance
  split
  · have hword := toNat_toUInt64_of_nonneg hn
    have hsum : (r.owed + n.toUInt64).toNat = r.owed.toNat + n.toInt.toNat := by
      rw [UInt64.toNat_add, hword, Nat.mod_eq_of_lt (by omega)]
    have hright : (r.column + n).toInt = r.column.toInt + n.toInt :=
      toInt_add_of_fits (by omega) hfits
    refine ⟨?_, by simp [hheld]⟩
    simp only [Renderer.cursor, Cursor.advance, hsum, hright]
    congr
    omega
  · next hzero =>
    have : n.toInt = 0 := by
      rw [Int64.lt_iff_toInt_lt, Int64.toInt_zero] at hzero
      omega
    refine ⟨?_, by simp [hheld]⟩
    simp [Cursor.advance, this]

theorem lays_newline (target : Int64) (hline : r.line.toNat + 1 < 2 ^ 64) :
    Lays (r.newline target) (r.cursor.newline r.discipline target.toInt) := by
  have htarget : (max target 0).toInt = max target.toInt 0 := by rw [toInt_max, Int64.toInt_zero]
  have hword := toNat_toUInt64_of_nonneg (a := max target 0) (by omega)
  have hnext : (r.line + 1).toNat = r.line.toNat + 1 := by
    rw [UInt64.toNat_add, UInt64.toNat_one, Nat.mod_eq_of_lt hline]
  unfold newline Cursor.newline
  cases r.discipline <;> exact ⟨by simp [Renderer.cursor, htarget, hword, hnext], by simp [hheld]⟩

theorem lays_below (indent : Int64) (overlap : Bool) {d : Doc}
    (hreach : indent.toInt.natAbs + d.shift < 2 ^ 63) (hcolumn : 0 ≤ r.column.toInt)
    (howed : r.owed.toNat ≤ r.column.toInt + 1) (hline : r.line.toNat + 1 < 2 ^ 64) :
    Lays (r.below indent overlap d) (r.cursor.below r.discipline indent.toInt overlap d) := by
  have htarget := toInt_target hreach
  have hlead := natAbs_lead_le_shift d
  have hless : r.column < indent + d.sizes.lead ↔ r.cursor.column < indent.toInt + d.lead := by
    rw [Int64.lt_iff_toInt_lt, htarget]
    rfl
  unfold below Cursor.below
  dsimp only
  by_cases hright : overlap && r.column < indent + d.sizes.lead
  · have hright' : overlap && r.cursor.column < indent.toInt + d.lead := by
      simpa [hless] using hright
    have hlt : r.column.toInt < indent.toInt + d.lead :=
      of_decide_eq_true (Bool.and_eq_true_iff.mp hright').2
    have hdiff : (indent + d.sizes.lead - r.column).toInt =
        indent.toInt + d.lead - r.column.toInt := by
      rw [toInt_sub_of_fits, htarget] <;> omega
    rw [if_pos hright, if_pos hright']
    have :=
      lays_advance hheld (n := indent + d.sizes.lead - r.column) (by omega) hcolumn (by omega) howed
    rwa [hdiff] at this
  · have hright' : ¬ (overlap && r.cursor.column < indent.toInt + d.lead) := by
      simpa [hless] using hright
    rw [if_neg hright, if_neg hright']
    have := lays_newline hheld (indent + d.sizes.lead) hline
    rwa [htarget] at this

end

/-! ### Steps -/

/-- The renderer does what the machine does, with the tasks `after` left on the stack. -/
structure Agrees (x : Option Chunk × Renderer) (o : Outcome) (after : List Task) : Prop where
  lays : Lays x (o.cursor, o.chunks)
  tasks : x.2.tasks = o.tasks ++ after

section

variable {limits : Limits} {n : Nat} (hn : n < 2 ^ 63) {r : Renderer} (hheld : r.held = none)
  (hsees : r.Sees limits)
include hn hheld hsees

omit hheld in
theorem any_fits_eq {d : Doc} (before follow : Nat) (h : before + d.span + follow ≤ n) :
    (d.sizes.flat.any fun w => r.fits (.ofNat before + w + .ofNat follow)) =
      d.flat?.any fun w => r.cursor.fits limits (before + w + follow) := by
  rw [d.sizes_eq_measured]
  cases hflat : d.flat? with
  | none => simp [measured, hflat]
  | some w =>
    have := flat?_le_span hflat
    simp only [measured, hflat, Option.map_some, Option.any_some, ← UInt64.ofNat_add]
    exact hsees.fits _ (by omega)

theorem render_agrees (indent : Int64) (fit : Fit) {d : Doc}
    (hreach : indent.toInt.natAbs + d.extent + stackSpan r.tasks ≤ n) (hcolumn : 0 ≤ r.column.toInt)
    (hfits : r.column.toInt + d.span + stackSpan r.tasks ≤ n) :
    Agrees (r.render indent fit d) (renderNode limits r.cursor r.tasks indent.toInt fit d)
      r.tasks := by
  cases d with
  | empty => exact ⟨⟨rfl, by simp [render, hheld, renderNode]⟩, rfl⟩
  | text s =>
    rw [Doc.span] at hfits
    exact ⟨lays_write hheld hcolumn (by omega), tasks_write s r⟩
  | nested k body =>
    rw [extent, shift] at hreach
    have hk : (Int64.ofInt k).toInt = k := toInt_ofInt_of_fits (by omega) (by omega)
    have hadd : (indent + .ofInt k).toInt = indent.toInt + k := by
      rw [toInt_add_of_fits, hk] <;> omega
    refine ⟨lays_stay hheld _, ?_⟩
    simp [render, renderNode, Command.task, hadd]
  | joined left spaced right =>
    refine ⟨lays_stay hheld _, ?_⟩
    cases spaced <;> simp [render, renderNode, Command.task]
  | stacked u overlap l => exact ⟨lays_stay hheld _, by simp [render, renderNode, Command.task]⟩
  | grouped fill spaced members =>
    have hrest := restOfLine_le_stackSpan r.tasks
    have hany :=
      any_fits_eq hn hsees (d := .grouped fill spaced members) 0 (restOfLine r.tasks) (by omega)
    have hword : Command.restOfLine r.stack = .ofNat (restOfLine r.tasks) :=
      Command.restOfLine_eq_ofNat r.stack
    have hzero : UInt64.ofNat 0 = 0 := rfl
    simp only [hzero, UInt64.zero_add, Nat.zero_add] at hany
    simp only [render, renderNode, hword, hany]
    split
    · exact ⟨lays_stay hheld _, by simp [map_task_flatRow]⟩
    · cases members with
      | nil => exact ⟨⟨rfl, by simp [hheld]⟩, rfl⟩
      | cons m ms =>
        cases fill with
        | true => exact ⟨lays_stay hheld _, by simp [Command.task, Renderer.cursor]⟩
        | false =>
          refine ⟨lays_stay hheld _, ?_⟩
          simp [Command.task, Function.comp_def]

omit hheld in
theorem joins_eq (spaced : Bool) (d : Doc) (ds : List Doc) (startLine : UInt64)
    (h : spans (d :: ds) + stackSpan r.tasks ≤ n) :
    r.joins spaced d ds startLine =
      Offside.joins limits r.cursor r.tasks spaced d ds startLine.toNat := by
  have hrest := restOfLine_le_stackSpan r.tasks
  have hfollow : (if ds.isEmpty then Command.restOfLine r.stack else 0) =
      .ofNat (if ds.isEmpty then restOfLine r.tasks else 0) := by
    rw [Command.restOfLine_eq_ofNat]
    split <;> rfl
  have hgap : gap spaced ≤ 1 := by cases spaced <;> simp [gap]
  rw [spans] at h
  unfold joins Offside.joins
  dsimp only
  rw [hfollow, gap_eq_ofNat, any_fits_eq hn hsees _ _ (by split <;> omega)]
  simp only [Renderer.cursor, UInt64.toNat_inj]

theorem fillNext_agrees {indent : Int64} (spaced : Bool) {rest : List Doc} (startLine : UInt64)
    (hreach : indent.toInt.natAbs + (shifts rest + spans rest) + stackSpan r.tasks ≤ n)
    (hcolumn : 0 ≤ r.column.toInt) (howed : r.owed.toNat ≤ r.column.toInt + 1)
    (hline : r.line.toNat + spans rest + stackSpan r.tasks ≤ n) :
    Agrees (r.fillNext indent spaced rest startLine)
      (Offside.fillNext limits r.cursor r.tasks indent.toInt spaced rest startLine.toNat)
        r.tasks := by
  cases rest with
  | nil => exact ⟨⟨rfl, by simp [fillNext, hheld, Offside.fillNext]⟩, rfl⟩
  | cons d ds =>
    have hjoins := joins_eq hn hsees spaced d ds startLine (by omega)
    rw [shifts, spans] at hreach
    unfold fillNext Offside.fillNext
    dsimp only
    rw [hjoins]
    split
    · refine ⟨lays_stay hheld _, ?_⟩
      cases spaced <;> simp [Command.task, Renderer.cursor]
    · have hbelow := lays_below hheld indent true (d := d) (by omega) hcolumn howed (by omega)
      rw [hsees.discipline] at hbelow
      refine ⟨hbelow.push _, ?_⟩
      have hsame : (r.below indent true d).2.line.toNat =
          (r.cursor.below limits.discipline indent.toInt true d).1.line :=
            congrArg Cursor.line hbelow.cursor
      simp [Command.task, hsame]

/-- A step of the renderer is a step of the machine. -/
theorem step_agrees {t : Command} (hbounded : State.Bounded n ⟨r.cursor, t.task :: r.tasks⟩) :
    Agrees (r.step t) (Offside.step limits r.cursor r.tasks t.task) r.tasks := by
  obtain ⟨honPage, howed, hfits, hline, hreach⟩ := hbounded
  simp only [stackSpan, stackReach] at honPage howed hfits hline hreach
  have hcolumn : 0 ≤ r.cursor.column := Int.le_trans honPage.lineIndent_nonneg honPage.lineIndent_le
  simp only [Renderer.cursor] at hcolumn howed hfits hline
  cases t with
  | render indent fit d =>
    simp only [Command.task, Task.span, Task.reach] at hfits hreach
    exact render_agrees hn hheld hsees indent fit (by omega) hcolumn (by omega)
  | align fit d =>
    simp only [Command.task, Task.span] at hfits
    have hlead := natAbs_lead_le_shift d
    have hsize := toInt_sizes_lead (d := d) (by omega)
    have hsub : (r.column - d.sizes.lead).toInt = r.column.toInt - d.lead := by
      rw [toInt_sub_of_fits, hsize] <;> omega
    have := render_agrees hn hheld hsees (r.column - d.sizes.lead) fit (d := d)
      (by rw [hsub, extent]; omega) hcolumn (by omega)
    rwa [hsub] at this
  | space =>
    simp only [Command.task, Task.span] at hfits
    have hone : (1 : Int64).toInt = 1 := rfl
    refine ⟨?_, tasks_advance 1 r⟩
    exact lays_advance hheld (n := 1) (by omega) hcolumn (by omega) howed
  | below indent overlap d =>
    simp only [Command.task, Task.span, Task.reach, extent] at hline hreach
    have hbelow := lays_below hheld indent overlap (d := d) (by omega) hcolumn howed (by omega)
    rw [hsees.discipline] at hbelow
    exact ⟨hbelow.push _, by simp [step, Offside.step, Command.task]⟩
  | fill indent spaced rest startLine =>
    simp only [Command.task, Task.span, Task.reach] at hline hreach
    exact fillNext_agrees hn hheld hsees spaced startLine (by omega) hcolumn howed (by omega)

end

/-! ### Runs -/

/-- One renderer comes after another, with these pieces handed out between them. -/
inductive Reaches : Renderer → List Chunk → Renderer → Prop where
  | refl (r : Renderer) : Reaches r [] r
  | hand {r s : Renderer} {p : Chunk} {out : List Chunk} (hheld : r.held = some p)
      (rest : Reaches { r with held := none } out s) : Reaches r (p :: out) s
  | step {r s : Renderer} {t : Command} {after : List Command} {out : List Chunk}
      (hheld : r.held = none)
      (hstack : r.stack = t :: after) (rest : Reaches ((r.atop after).step t).2 out s) :
      Reaches r (((r.atop after).step t).1.toList ++ out) s

/-- What holds of a renderer and the pieces it has handed out, and is kept where a piece that was
held back is handed out and where a command is worked off, holds of every renderer that is
reached. -/
theorem Reaches.keeps {P : List Chunk → Renderer → Prop}
    (hhand : ∀ {out : List Chunk} {r : Renderer} {p : Chunk}, r.held = some p → P out r →
      P (out ++ [p]) { r with held := none })
    (hstep : ∀ {out : List Chunk} {r : Renderer} {t : Command} {after : List Command},
      r.held = none → r.stack = t :: after → P out r →
        P (out ++ ((r.atop after).step t).1.toList) ((r.atop after).step t).2)
    {r s : Renderer} {out : List Chunk} (h : r.Reaches out s) (hr : P [] r) : P out s := by
  suffices ∀ before, P before r → P (before ++ out) s from this [] hr
  clear hr
  induction h with
  | refl =>
    intro before hr
    simpa using hr
  | hand hheld _ ih =>
    intro before hr
    simpa using ih _ (hhand hheld hr)
  | step hheld hstack _ ih =>
    intro before hr
    simpa using ih _ (hstep hheld hstack hr)

theorem Reaches.append {r s q : Renderer} {out more : List Chunk} (h : r.Reaches out s)
    (h' : s.Reaches more q) : r.Reaches (out ++ more) q := by
  induction h with
  | refl => exact h'
  | hand hheld _ ih => exact .hand hheld (ih h')
  | step hheld hstack _ ih =>
    rw [List.append_assoc]
    exact .step hheld hstack (ih h')

theorem reaches_of_next {r s : Renderer} {p : Chunk} (h : r.next = some (p, s)) :
    r.Reaches [p] s := by
  fun_induction next r with
  | case1 r q hheld =>
    obtain ⟨rfl, rfl⟩ := Prod.mk.inj (Option.some.inj h)
    exact .hand hheld (.refl _)
  | case2 => cases h
  | case3 r hheld t after hstack q r' hstep =>
    obtain ⟨rfl, rfl⟩ := Prod.mk.inj (Option.some.inj h)
    have := Reaches.step hheld hstack (.refl _)
    rwa [hstep] at this
  | case4 r hheld t after hstack r' hstep ih =>
    have hnext : r.Reaches (((r.atop after).step t).1.toList ++ [p]) s :=
      .step hheld hstack (by rw [hstep]; exact ih h)
    rwa [hstep] at hnext

theorem reaches_end_of_next {r : Renderer} (h : r.next = none) :
    ∃ s, r.Reaches [] s ∧ s.held = none ∧ s.stack = [] := by
  fun_induction next r with
  | case1 => cases h
  | case2 r hheld hstack => exact ⟨r, .refl r, hheld, hstack⟩
  | case3 => cases h
  | case4 r hheld t after hstack r' hstep ih =>
    obtain ⟨s, hreach, hs⟩ := ih h
    have hnext : r.Reaches (((r.atop after).step t).1.toList ++ []) s :=
      .step hheld hstack (by rw [hstep]; exact hreach)
    rw [hstep] at hnext
    exact ⟨s, hnext, hs⟩

/-- All pieces are handed out on the way to the end. -/
theorem reaches_end (r : Renderer) : ∃ s, r.Reaches r.chunks s ∧ s.held = none ∧ s.stack = [] := by
  fun_induction chunks r with
  | case1 r hnext => exact reaches_end_of_next hnext
  | case2 r p r' hnext ih =>
    obtain ⟨s, hreach, hs⟩ := ih
    exact ⟨s, (reaches_of_next hnext).append hreach, hs⟩

/-- The page on which a renderer lays out. -/
structure On (style : Style) (r : Renderer) : Prop where
  discipline : r.discipline = style.discipline
  lineLength : r.lineLength = style.lineLength.toInt64
  ribbon : r.ribbon = style.ribbonWidth.toInt64

theorem On.atop {style : Style} {r : Renderer} (h : r.On style) (after : List Command) :
    (r.atop after).On style :=
  ⟨h.discipline, h.lineLength, h.ribbon⟩

theorem start_on (style : Style) (d : Doc) : (start style d).On style := ⟨rfl, rfl, rfl⟩

theorem step_on {style : Style} {r : Renderer} (h : r.On style) (t : Command) :
    (r.step t).2.On style := by
  obtain ⟨hdiscipline, hline, hribbon⟩ := h
  generalize hx : r.step t = x
  cases hx ▸ step_steps t r with
  | stay => exact ⟨hdiscipline, hline, hribbon⟩
  | right n =>
    unfold advance
    split <;> exact ⟨hdiscipline, hline, hribbon⟩
  | newline target =>
    unfold newline
    cases h : r.discipline <;> exact ⟨h.symm.trans hdiscipline, hline, hribbon⟩
  | write =>
    unfold write
    dsimp only
    split_ifs <;> exact ⟨hdiscipline, hline, hribbon⟩

end Renderer

/-- The numbers of a page and `n` columns are so far apart that no difference of them wraps around:
a width of the page is below 2^63, or it is a negative number of columns from which `n` columns can
be taken away. -/
def Style.Covers (style : Style) (n : Nat) : Prop :=
  style.discipline = .page →
    ∀ width ∈ [style.lineLength, style.ribbonWidth], width.toNat < 2 ^ 63 ∨ 2 ^ 63 + n ≤ width.toNat

theorem Style.Covers.mono {style : Style} {m n : Nat} (h : style.Covers n) (hmn : m ≤ n) :
    style.Covers m :=
  fun hpage width hwidth => (h hpage width hwidth).imp id fun hle => by omega

theorem toInt_toInt64_of_le {n : UInt64} (h : 2 ^ 63 ≤ n.toNat) :
    n.toInt64.toInt = (n.toNat : Int) - 2 ^ 64 := by
  have hword : n.toInt64.toInt = if 2 * n.toNat < 2 ^ 64 then (n.toNat : Int) else
      n.toNat - (2 ^ 64 : Nat) :=
    BitVec.toInt_eq_toNat_cond n.toBitVec
  rw [hword, if_neg (by omega)]
  rfl

theorem Style.Covers.le_toInt {style : Style} {n : Nat} (h : style.Covers n)
    (hpage : style.discipline = .page) (hn : n < 2 ^ 63) (width : UInt64)
    (hwidth : width ∈ [style.lineLength, style.ribbonWidth]) :
    n - 2 ^ 63 ≤ width.toInt64.toInt := by
  rcases h hpage width hwidth with hlt | hle
  · rw [toInt_toInt64 hlt]
    omega
  · rw [toInt_toInt64_of_le (by omega)]
    omega

namespace Renderer

/-- The limits of the page as they are seen from where the renderer stands. -/
def view (r : Renderer) : Limits where
  discipline := r.discipline
  lineLength := (r.lineLength - r.column).toInt + r.column.toInt
  ribbon := (r.ribbon - (r.column - r.lineIndent)).toInt + (r.column.toInt - r.lineIndent.toInt)

theorem sees_of_room {r : Renderer} {limits : Limits}
    (hdiscipline : r.discipline = limits.discipline)
    (hroom : limits.discipline = .page → (r.lineLength - r.column).toInt =
      limits.lineLength - r.column.toInt ∧
      (r.ribbon - (r.column - r.lineIndent)).toInt =
        limits.ribbon - (r.column.toInt - r.lineIndent.toInt)) :
    r.Sees limits := by
  refine ⟨hdiscipline, fun w hw => ?_⟩
  unfold fits Cursor.fits
  rw [hdiscipline]
  cases hpage : limits.discipline with
  | left => rfl
  | oneLine => rfl
  | page =>
    obtain ⟨hline, hribbon⟩ := hroom hpage
    have hword : (UInt64.ofNat w).toInt64.toInt = w := by
      rw [toInt_toInt64 (by rwa [toNat_ofNat_of_lt hw]), toNat_ofNat_of_lt hw]
    simp only [Int64.le_iff_toInt_le, toInt_min, hword, hline, hribbon]
    rfl

theorem sees_view (r : Renderer) : r.Sees r.view := by
  refine sees_of_room rfl fun _ => ⟨?_, ?_⟩
  · simp only [view]
    omega
  · simp only [view]
    omega

/-- On a page that is wide enough or far enough from being so, the renderer sees the limits of the
style. -/
theorem On.sees {style : Style} {r : Renderer} (h : r.On style) {n : Nat} (hn : n < 2 ^ 63)
    (hstyle : style.Covers n) (hcursor : r.cursor.OnPage) (hcolumn : r.column.toInt ≤ n) :
    r.Sees style.limits := by
  obtain ⟨hdiscipline, hline, hribbon⟩ := h
  obtain ⟨hnonneg, hle⟩ := hcursor
  simp only [Renderer.cursor] at hnonneg hle
  refine sees_of_room hdiscipline fun hpage => ?_
  have hlength := hstyle.le_toInt hpage hn style.lineLength (by simp)
  have hwidth := hstyle.le_toInt hpage hn style.ribbonWidth (by simp)
  have hlength' := style.lineLength.toInt64.toInt_lt
  have hwidth' := style.ribbonWidth.toInt64.toInt_lt
  have hinner : (r.column - r.lineIndent).toInt = r.column.toInt - r.lineIndent.toInt :=
    toInt_sub_of_fits (by omega) (by omega)
  rw [hline, hribbon]
  constructor
  · exact toInt_sub_of_fits (by omega) (by omega)
  · rw [toInt_sub_of_fits, hinner]
    · rfl
    · omega
    · omega

theorem start_state {d : Doc} (hd : d.extent < 2 ^ 63) (style : Style) :
    (start style d).state = .start style d := by
  have hsize := toInt_sizes_lead (Nat.lt_of_le_of_lt (Nat.le_add_right ..) hd)
  have hcolumn : (max d.sizes.lead 0).toInt = max d.lead 0 := by
    rw [toInt_max, hsize, Int64.toInt_zero]
  have hword := toNat_toUInt64_of_nonneg (a := max d.sizes.lead 0) (by omega)
  have howed : (if style.discipline = .page then (max d.sizes.lead 0).toUInt64 else 0).toNat =
      if style.discipline = .page then (max d.lead 0).toNat else 0 := by
    split
    · rw [hword, hcolumn]
    · rfl
  simp [start, state, State.start, Cursor.start, Renderer.cursor, tasks, Command.task,
    hcolumn, howed]

theorem Agrees.chunks_eq {x : Option Chunk × Renderer} {o : Outcome} {after : List Task}
    (h : Agrees x o after) : x.1.toList ++ x.2.held.toList = o.chunks := h.lays.chunks

theorem Agrees.state_eq {x : Option Chunk × Renderer} {limits : Limits} {c : Cursor} {t : Task}
    {after : List Task} (h : Agrees x (Offside.step limits c after t) after) :
    x.2.state = .next limits c t after := by
  rw [state, h.lays.cursor, h.tasks]
  rfl

theorem state_of_stack {r : Renderer} {t : Command} {after : List Command}
    (h : r.stack = t :: after) : r.state = ⟨r.cursor, t.task :: after.map Command.task⟩ := by
  simp [state, tasks, h]

section

variable {n : Nat} (hn : n < 2 ^ 63) {r : Renderer} {t : Command} {after : List Command}
  (hheld : r.held = none)
  (hstack : r.stack = t :: after) (hr : r.state.Bounded n)
include hn hheld hstack hr

/-- Working off the command on top of the stack is a step of the machine. -/
theorem top_agrees {limits : Limits} (hsees : (r.atop after).Sees limits) :
    Agrees ((r.atop after).step t) (Offside.step limits r.cursor (after.map Command.task) t.task)
      (after.map Command.task) := by
  rw [state_of_stack hstack] at hr
  exact step_agrees hn (r := r.atop after) hheld hsees hr

theorem top_bounded : ((r.atop after).step t).2.state.Bounded n := by
  rw [(top_agrees hn hheld hstack hr (sees_view _)).state_eq]
  rw [state_of_stack hstack] at hr
  exact hr.next _

end

section

variable {d : Doc} (hd : d.extent < 2 ^ 63) {style : Style} {out : List Chunk} {r : Renderer}
include hd

/-- Whatever the page is, no number of a run grows past the extent of the document. -/
theorem reaches_bounded (h : (start style d).Reaches out r) : r.state.Bounded d.extent := by
  refine h.keeps (P := fun _ r => r.state.Bounded d.extent) (fun _ hr => hr)
    (fun hheld hstack hr => ?_) ?_
  · exact top_bounded hd hheld hstack hr
  · rw [start_state hd]
    exact start_bounded style d

theorem On.sees_of_bounded (hon : r.On style) (hstyle : style.Covers d.extent)
    (hr : r.state.Bounded d.extent) (after : List Command) : (r.atop after).Sees style.limits := by
  refine (hon.atop after).sees hd hstyle hr.onPage ?_
  have : r.column.toInt + stackSpan r.tasks ≤ d.extent := hr.column_le
  change r.column.toInt ≤ d.extent
  omega

variable (hstyle : style.Covers d.extent)
include hstyle

/-- The renderer goes through states of the machine, and what it has handed out or holds back is
what is written. -/
theorem reaches_state (h : (start style d).Reaches out r) :
    r.On style ∧ Offside.Reaches style.limits (.start style d) (out ++ r.held.toList) r.state := by
  refine h.keeps (P := fun out r => r.On style ∧
    Offside.Reaches style.limits (.start style d) (out ++ r.held.toList) r.state) ?_ ?_ ?_
  · rintro out r p hheld ⟨hon, hreach⟩
    rw [hheld] at hreach
    exact ⟨⟨hon.discipline, hon.lineLength, hon.ribbon⟩,
      by rwa [Option.toList_none, List.append_nil]⟩
  · rintro out r t after hheld hstack ⟨hon, hreach⟩
    have hbounded : r.state.Bounded d.extent := reachable_bounded hreach
    have hagrees :=
      top_agrees hd hheld hstack hbounded (hon.sees_of_bounded hd hstyle hbounded after)
    refine ⟨step_on (hon.atop after) t, ?_⟩
    rw [hheld, Option.toList_none, List.append_nil, state_of_stack hstack] at hreach
    have hnext := hreach.append (.step (.refl _))
    rw [List.append_nil] at hnext
    rw [List.append_assoc, hagrees.chunks_eq, hagrees.state_eq]
    exact hnext
  · refine ⟨start_on style d, ?_⟩
    rw [start_state hd]
    exact .refl _

/-- The renderer hands out the pieces of the document. -/
theorem chunks_eq_chunks : (start style d).chunks = d.chunks style := by
  obtain ⟨s, hreach, hheld, hstack⟩ := reaches_end (start style d)
  obtain ⟨-, hstate⟩ := reaches_state hd hstyle hreach
  have hrun := hstate.run_eq
  have htasks : s.state.stack = [] := by simp [state, tasks, hstack]
  rw [htasks, run, hheld, Option.toList_none, List.append_nil, List.append_nil] at hrun
  exact hrun.symm

end

end Renderer

end Offside
