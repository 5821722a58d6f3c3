import Offside.Proofs.WrittenNumbers
import Offside.Settings.Basic

/-!
# Settings that stand for a mode

Settings are checked in order: the six indents, then the layout. They stand for a mode exactly if no
indent is negative and the layout is one of the known names, in letters of either case and with
blanks around it. The mode gives the settings back with the layout under its own name, and these
stand for the same mode.
-/
namespace Offside

open Text

/-! ### Blanks around a text -/

theorem dropWhile_isBlank_of_forall {cs : List Char} (h : ∀ c ∈ cs, isBlank c = false)
    (after : List Char) (hafter : ∀ c ∈ after, isBlank c = true) :
    (cs ++ after).dropWhile isBlank = if cs = [] then [] else cs ++ after := by
  cases cs with
  | nil => simpa using hafter
  | cons c cs => simp [h c (by simp)]

/-- Of a text between blanks only the text is left. -/
theorem trim_between {before core after : List Char} (hbefore : ∀ c ∈ before, isBlank c = true)
    (hcore : ∀ c ∈ core, isBlank c = false) (hafter : ∀ c ∈ after, isBlank c = true) :
    trim (before ++ core ++ after) = core := by
  have hleft : (before ++ core ++ after).dropWhile isBlank =
      if core = [] then [] else core ++ after := by
    rw [List.append_assoc, List.dropWhile_append_of_pos hbefore,
      dropWhile_isBlank_of_forall hcore after hafter]
  rw [trim, hleft]
  by_cases hne : core = []
  · simp [hne]
  · have hright := trim_of_forall hcore
    rw [if_neg hne, List.reverse_append, List.dropWhile_append_of_pos (by simpa using hafter)]
    cases core with
    | nil => rfl
    | cons c cs => simpa [trim, hcore c (by simp)] using hright

/-- What is cut off a text is blank. -/
theorem exists_trim_between (cs : List Char) :
    ∃ before after, cs = before ++ trim cs ++ after ∧ (∀ c ∈ before, isBlank c = true) ∧
      ∀ c ∈ after, isBlank c = true := by
  refine ⟨cs.takeWhile isBlank, ((cs.dropWhile isBlank).reverse.takeWhile isBlank).reverse,
    ?_, ?_, ?_⟩
  · have hright :=
      List.takeWhile_append_dropWhile (p := isBlank) (l := (cs.dropWhile isBlank).reverse)
    have hback := congrArg List.reverse hright
    rw [List.reverse_append, List.reverse_reverse] at hback
    rw [trim, List.append_assoc, hback, List.takeWhile_append_dropWhile]
  · intro c hc
    exact List.mem_takeWhile_imp hc
  · intro c hc
    exact List.mem_takeWhile_imp (List.mem_reverse.mp hc)

theorem isBlank_of_visible {c : Char} (hlow : 0x21 ≤ c.toNat) (hhigh : c.toNat < 0x85) :
    isBlank c = false := by
  have hbelow : ∀ n, n ≤ 0x21 → (n ≤ c.toNat) = True := fun n hn => eq_true (by omega)
  have habove : ∀ n, 0x85 ≤ n → (n ≤ c.toNat) = False := fun n hn => eq_false (by omega)
  simp [isBlank, blanks, CodeSet.contains, hbelow, habove]

/-- The letters of either case are not blank. -/
theorem isBlank_toLower (c : Char) : isBlank c.toLower = isBlank c := by
  by_cases hc : c.isUpper = true
  · have hbounds : 65 ≤ c.toNat ∧ c.toNat ≤ 90 := by
      simpa [Char.isUpper, UInt32.le_iff_toNat_le] using hc
    have hlower : c.toLower.toNat = c.toNat + 32 := by
      rw [Char.toLower_eq_of_isUpper hc, Char.toNat_ofNat, if_pos (.inl (by omega))]
    rw [isBlank_of_visible (by omega) (by omega), isBlank_of_visible (by omega) (by omega)]
  · rw [Char.toLower_eq_of_not_isUpper hc]

/-! ### Names of layouts -/

namespace Layout

/-- The names by which a layout is asked for, its own name first. -/
def names : Layout → List String
  | .offside => ["offside", "offside-rule"]
  | .semicolon => ["semicolon", "semi-colon", "explicit-semicolon"]
  | .inline => ["inline", "in-line"]
  | .none => ["no-layout", "nolayout", "none"]

/-- The text is a name of the layout, in letters of either case and with blanks around it. -/
def NamedBy (l : Layout) (s : String) : Prop :=
  ∃ before core after, s.toList = before ++ core ++ after ∧ (∀ c ∈ before, isBlank c = true) ∧
    (∀ c ∈ after, isBlank c = true) ∧ String.ofList (core.map Char.toLower) ∈ l.names

theorem ofName?_eq_some_iff {s : String} {l : Layout} : ofName? s = some l ↔ s ∈ l.names := by
  constructor
  · intro h
    unfold ofName? at h
    split at h <;> simp_all [names] <;> subst h <;> simp
  · intro h
    cases l <;> simp only [names, List.mem_cons, List.not_mem_nil, or_false] at h <;>
      rcases h with rfl | rfl | rfl <;> rfl

theorem isBlank_of_mem_names {s : String} {l : Layout} (hs : s ∈ l.names) {c : Char}
    (hc : c ∈ s.toList) : isBlank c = false := by
  have hall : l.names.all (fun s => s.toList.all fun c => !isBlank c) = true := by
    cases l <;> decide
  simpa using List.all_eq_true.mp (List.all_eq_true.mp hall s hs) c hc

theorem parse_eq_ok_iff {s : String} {l : Layout} : parse s = .ok l ↔ l.NamedBy s := by
  constructor
  · intro h
    obtain ⟨before, after, hs, hbefore, hafter⟩ := exists_trim_between s.toList
    refine ⟨before, trim s.toList, after, hs, hbefore, hafter, ofName?_eq_some_iff.mp ?_⟩
    unfold parse at h
    split at h
    · next l' hl =>
      cases h
      exact hl
    · cases h
  · rintro ⟨before, core, after, hs, hbefore, hafter, hname⟩
    have hcore : ∀ c ∈ core, isBlank c = false := by
      intro c hc
      have hlower : c.toLower ∈ (String.ofList (core.map Char.toLower)).toList := by
        rw [String.toList_ofList]
        exact List.mem_map_of_mem hc
      rw [← isBlank_toLower, isBlank_of_mem_names hname hlower]
    rw [parse, hs, trim_between hbefore hcore hafter, ofName?_eq_some_iff.mpr hname]

/-- A text that names no layout is reported as it is. -/
theorem parse_eq_error_iff {s : String} {e : SettingsError} :
    parse s = .error e ↔ (∀ l : Layout, ¬ l.NamedBy s) ∧ e = .unknownLayout s := by
  have hparse : ∀ e, parse s = .error e → e = .unknownLayout s := by
    intro e h
    unfold parse at h
    split at h
    · cases h
    · exact (Except.error.inj h).symm
  constructor
  · intro h
    refine ⟨fun l hl => ?_, hparse e h⟩
    rw [parse_eq_ok_iff.mpr hl] at h
    cases h
  · rintro ⟨hnone, rfl⟩
    cases h : parse s with
    | ok l => exact absurd (parse_eq_ok_iff.mp h) (hnone l)
    | error e => rw [hparse e h]

theorem namedBy_name (l : Layout) : l.NamedBy l.name := by
  refine ⟨[], l.name.toList, [], by simp, by simp, by simp, ?_⟩
  cases l <;> decide

end Layout

/-! ### The checks in order -/

namespace Settings

/-- The indents by their keys, in the order in which they are checked. -/
def indents (s : Settings) : List (String × Int) :=
  [("class_indent", s.classIndent), ("do_indent", s.doIndent), ("case_indent", s.caseIndent),
    ("let_indent", s.letIndent), ("where_indent", s.whereIndent), ("onside_indent", s.onsideIndent)]

/-- The mode of settings whose indents are not negative. -/
def modeIn (s : Settings) (l : Layout) : Mode :=
  { classIndent := s.classIndent.toNat
    doIndent := s.doIndent.toNat
    caseIndent := s.caseIndent.toNat
    letIndent := s.letIndent.toNat
    whereIndent := s.whereIndent.toNat
    onsideIndent := s.onsideIndent.toNat
    spacing := s.spacing
    layout := l
    linePragmas := s.linePragmas
    comments := s.comments }

theorem width_bind {α : Type} (field : String) (value : Int) (k : Nat → Except SettingsError α) :
    (width field value >>= k) = if value < 0 then .error (.negativeIndent field value) else
      k value.toNat := by
  unfold width
  by_cases h : value < 0
  · rw [if_neg (by omega), if_pos h]
    rfl
  · rw [if_pos (by omega), if_neg h]
    rfl

/-- The first indent below zero is reported, and the layout is looked at if there is none. -/
theorem toMode_eq (s : Settings) :
    s.toMode = (s.indents.find? fun f => f.2 < 0).elim ((Layout.parse s.layout).map s.modeIn)
      fun f => .error (.negativeIndent f.1 f.2) := by
  have hnext : ∀ (f : String × Int) (fs : List (String × Int)) (rest : Except SettingsError Mode),
      ((f :: fs).find? fun f => f.2 < 0).elim rest (fun f => .error (.negativeIndent f.1 f.2)) =
        if f.2 < 0 then .error (.negativeIndent f.1 f.2)
        else (fs.find? fun f => f.2 < 0).elim rest fun f => .error (.negativeIndent f.1 f.2) := by
    intro f fs rest
    by_cases h : f.2 < 0 <;> simp [h]
  have hlayout : (do return s.modeIn (← Layout.parse s.layout)) =
      (Layout.parse s.layout).map s.modeIn := by
    cases Layout.parse s.layout <;> rfl
  simp only [toMode, width_bind, indents, hnext, List.find?_nil, Option.elim_none, ← hlayout]
  rfl

theorem find?_indents_eq_none_iff {s : Settings} :
    (s.indents.find? fun f => f.2 < 0) = none ↔ ∀ f ∈ s.indents, 0 ≤ f.2 := by
  simp [List.find?_eq_none]

theorem toMode_eq_ok_iff {s : Settings} {m : Mode} :
    s.toMode = .ok m ↔ (∀ f ∈ s.indents, 0 ≤ f.2) ∧ m.layout.NamedBy s.layout ∧
    m = s.modeIn m.layout := by
  rw [toMode_eq, ← find?_indents_eq_none_iff]
  cases s.indents.find? fun f => f.2 < 0 with
  | some f => simp
  | none =>
    rw [Option.elim_none, ← Layout.parse_eq_ok_iff]
    cases Layout.parse s.layout with
    | error e => simp [Except.map]
    | ok l =>
      simp only [Except.map, Except.ok.injEq, true_and]
      constructor
      · rintro rfl
        exact ⟨rfl, rfl⟩
      · rintro ⟨rfl, hm⟩
        exact hm.symm

theorem find?_indents_eq_some_iff {s : Settings} {f : String × Int} :
    (s.indents.find? fun f => f.2 < 0) = some f ↔
      ∃ before after, s.indents = before ++ f :: after ∧ (∀ g ∈ before, 0 ≤ g.2) ∧ f.2 < 0 := by
  rw [List.find?_eq_some_iff_append]
  simp only [decide_eq_true_eq, Bool.not_eq_true', decide_eq_false_iff_not, Int.not_lt]
  constructor
  · rintro ⟨hneg, before, after, hsplit, hbefore⟩
    exact ⟨before, after, hsplit, hbefore, hneg⟩
  · rintro ⟨before, after, hsplit, hbefore, hneg⟩
    exact ⟨hneg, before, after, hsplit, hbefore⟩

theorem toMode_eq_error_iff {s : Settings} {e : SettingsError} :
    s.toMode = .error e ↔
      (∃ f, (s.indents.find? fun f => f.2 < 0) = some f ∧ e = .negativeIndent f.1 f.2) ∨
        (∀ f ∈ s.indents, 0 ≤ f.2) ∧ (∀ l : Layout, ¬ l.NamedBy s.layout) ∧
        e = .unknownLayout s.layout := by
  rw [toMode_eq, ← find?_indents_eq_none_iff, ← Layout.parse_eq_error_iff]
  cases s.indents.find? fun f => f.2 < 0 with
  | some f => simp [eq_comm]
  | none => cases Layout.parse s.layout <;> simp [Except.map]

/-! ### There and back -/

/-- A mode gives back the settings that it comes from, but for the spelling of the layout. -/
theorem ofMode_modeIn {s : Settings} (hs : ∀ f ∈ s.indents, 0 ≤ f.2) (l : Layout) :
    ofMode (s.modeIn l) = { s with layout := l.name } := by
  simp only [indents, List.forall_mem_cons, List.not_mem_nil, false_imp_iff, implies_true,
    and_true] at hs
  obtain ⟨hclass, hdo, hcase, hlet, hwhere, honside⟩ := hs
  simp only [ofMode, modeIn, Int.toNat_of_nonneg, hclass, hdo, hcase, hlet, hwhere, honside]

/-- The settings of a mode stand for it. -/
theorem toMode_ofMode (m : Mode) : (ofMode m).toMode = .ok m := by
  refine toMode_eq_ok_iff.mpr ⟨?_, m.layout.namedBy_name, ?_⟩
  · simp [indents, ofMode]
  · simp [modeIn, ofMode]

/-- Settings stand for a mode exactly if no indent is negative and the layout is named. Otherwise
the first indent below zero is reported with its value, or the layout if there is no such indent.
The mode gives the settings back with the layout under its own name, and these stand for the same
mode. -/
theorem settings_are_checked_in_order (s : Settings) :
    ((∃ m, s.toMode = .ok m) ↔ (∀ f ∈ s.indents, 0 ≤ f.2) ∧ ∃ l : Layout, l.NamedBy s.layout) ∧
    (∀ e, s.toMode = .error e ↔
      (∃ before field value after, s.indents = before ++ (field, value) :: after ∧
        (∀ f ∈ before, 0 ≤ f.2) ∧
        value < 0 ∧ e = .negativeIndent field value) ∨
      (∀ f ∈ s.indents, 0 ≤ f.2) ∧ (∀ l : Layout, ¬ l.NamedBy s.layout) ∧
      e = .unknownLayout s.layout) ∧
    ∀ m, s.toMode = .ok m →
      m.layout.NamedBy s.layout ∧ ofMode m = { s with layout := m.layout.name } ∧
      (ofMode m).toMode = .ok m := by
  refine ⟨?_, ?_, ?_⟩
  · constructor
    · rintro ⟨m, hm⟩
      obtain ⟨hindents, hlayout, -⟩ := toMode_eq_ok_iff.mp hm
      exact ⟨hindents, m.layout, hlayout⟩
    · rintro ⟨hindents, l, hl⟩
      exact ⟨s.modeIn l, toMode_eq_ok_iff.mpr ⟨hindents, hl, rfl⟩⟩
  · intro e
    rw [toMode_eq_error_iff]
    simp only [find?_indents_eq_some_iff]
    grind
  · intro m hm
    obtain ⟨hindents, hlayout, hmode⟩ := toMode_eq_ok_iff.mp hm
    refine ⟨hlayout, ?_, toMode_ofMode m⟩
    rw [hmode]
    exact ofMode_modeIn hindents m.layout

theorem spelled_out_layout_is_renamed :
    let s : Settings := { defaults with doIndent := 0, layout := "\u00a0Explicit-SemiColon\t" }
    ∃ m, s.toMode = .ok m ∧ m.layout = .semicolon ∧ ofMode m = { s with layout := "semicolon" } ∧
      (ofMode m).toMode = .ok m := by
  intro s
  have hmode : s.toMode = .ok { doIndent := 0, layout := .semicolon } := by decide +kernel
  obtain ⟨-, hback, hagain⟩ := (settings_are_checked_in_order s).2.2 _ hmode
  exact ⟨_, hmode, rfl, hback, hagain⟩

end Settings

end Offside
