import Offside.Proofs.NumberSigns

/-!
# The signs that trees start with

A name, a type and a field start with no operator sign. A pattern that stands in an operand's place
starts with one exactly if it is irrefutable, and an expression if the operator of its leftmost
operand is a tilde. A whole pattern starts with a minus sign if it is negated or a number below
zero.
-/
namespace Offside

open Doc Reading Syntax

/-- The operator sign that a text starts with. -/
def Reading.signOf (w : String) : Option Char := w.toList.head?.filter fun c => c ∈ asciiSymbols

theorem Reading.signOf_eq_none_iff {w : String} : signOf w = none ↔ opensSoftly w = true := by
  simp [signOf, opensSoftly, Option.all_eq_true]

theorem Reading.signOf_eq_minus_iff {w : String} :
    signOf w = some '-' ↔ w.toList.head? = some '-' := by
  rw [signOf, Option.filter_eq_some_iff]
  simp only [and_iff_left_iff_imp]
  exact fun _ => by decide

theorem Reading.signOf_ofList_cons {c : Char} (hc : c ∉ asciiSymbols) (cs : List Char) :
    signOf (String.ofList (c :: cs)) = none := by
  simp [signOf, hc]

/-- The document starts at its margin with a text that starts with this operator sign. -/
def Doc.OpensWith (sign : Option Char) (d : Doc) : Prop :=
  ∃ w, d.Begins w ∧ w ≠ "" ∧ signOf w = sign

theorem Doc.Full.leaves_ne_nil {d : Doc} (hd : d.Full) : d.leaves ≠ [] := by
  induction hd with
  | text s => simp [leaves]
  | nested k _ ih => exact ih
  | joined _ spaced _ ihl _ => simp [leaves, ihl]
  | stacked _ overlap _ ihu _ => simp [leaves, ihu]
  | grouped fill _ _ ihd _ => simp [leaves, leavesAll, ihd]

/-- What a document without empty parts starts with is its first text. -/
theorem Doc.Full.head_beads {d : Doc} (hd : d.Full) {w : String} (hw : d.leaves.head? = some w)
    (hne : w ≠ "") : d.beads.head? = some (some w) := by
  have happend : ∀ {d : Doc} {ss : List String} {bs : Beads}, d.Full →
      (d.leaves ++ ss).head? = some w →
      (d.leaves.head? = some w → d.beads.head? = some (some w)) →
      (d.beads ++ bs).head? = some (some w) := by
    intro d ss bs hd h ih
    rw [List.head?_append_of_ne_nil _ hd.leaves_ne_nil] at h
    rw [List.head?_append, ih h]
    rfl
  induction hd with
  | text s =>
    obtain rfl : s = w := by simpa [leaves] using hw
    simp [beads, hne]
  | nested k _ ih => exact ih hw
  | joined hl spaced _ ihl _ => exact happend hl hw ihl
  | stacked hu overlap _ ihu _ => exact happend hu hw ihu
  | grouped fill hd _ ihd _ => exact happend hd hw ihd

theorem Doc.OpensWith.head_beads {sign : Option Char} {d : Doc} (hopens : d.OpensWith sign)
    (hd : d.Full) : ∃ w, d.beads.head? = some (some w) ∧ signOf w = sign := by
  obtain ⟨w, hbegins, hne, hsign⟩ := hopens
  exact ⟨w, hd.head_beads hbegins.head hne, hsign⟩

namespace Syntax

/-! ### Plans -/

/-- An atom that is printed with this operator sign first. -/
def Atom.OpensWith (m : Mode) (sign : Option Char) : Atom → Prop
  | .word s => s ≠ "" ∧ signOf s = sign
  | .tree t level => (t.pretty m level).value.OpensWith sign
  | .block _ => False

def Sketch.OpensWith (m : Mode) (sign : Option Char) (s : Sketch) : Prop :=
  ∃ x ∈ s.atoms.head?, x.OpensWith m sign

namespace Sketch

variable {m : Mode} {sign : Option Char} {s : Sketch}

theorem OpensWith.doc (hs : s.OpensWith m sign) : (s.doc m).OpensWith sign := by
  obtain ⟨x, hx, hopens⟩ := hs
  have hstart := (startsWithAtom m s).begins x hx
  cases x with
  | word w => exact ⟨w, hstart w rfl, hopens⟩
  | tree t level =>
    obtain ⟨w, hbegins, hsign⟩ := hopens
    exact ⟨w, hstart w hbegins, hsign⟩
  | block items => exact hopens.elim

theorem OpensWith.of_atoms {s' : Sketch} {rest : List Atom} (hs : s.OpensWith m sign)
    (h : s'.atoms = s.atoms ++ rest) : s'.OpensWith m sign := by
  obtain ⟨x, hx, hopens⟩ := hs
  refine ⟨x, ?_, hopens⟩
  rw [h, List.head?_append, Option.mem_def.mp hx]
  rfl

theorem opensWith_word {w : String} (hne : w ≠ "") : (word w).OpensWith m (signOf w) :=
  ⟨.word w, rfl, hne, rfl⟩

theorem opensWith_tree {t : Node} {level : Nat} (h : (t.pretty m level).value.OpensWith sign) :
    (tree t level).OpensWith m sign := ⟨.tree t level, rfl, h⟩

theorem OpensWith.append (hs : s.OpensWith m sign) (r : Sketch) : (s ++ r).OpensWith m sign :=
  hs.of_atoms rfl

theorem OpensWith.appendSpace (hs : s.OpensWith m sign) (r : Sketch) :
    (s.appendSpace r).OpensWith m sign :=
  hs.of_atoms rfl

theorem OpensWith.upon (hs : s.OpensWith m sign) (l : Sketch) : (upon s l).OpensWith m sign :=
  hs.of_atoms rfl

theorem OpensWith.row (hs : s.OpensWith m sign) (arrangement : Row) (ss : List Sketch) :
    (row arrangement (s :: ss)).OpensWith m sign :=
  hs.of_atoms (by rw [atoms_row, List.flatMap_cons])

theorem opensWith_parens (s : Sketch) : s.parens.OpensWith m none :=
  (opensWith_word (w := "(") (by decide)).of_atoms rfl

theorem opensWith_brackets (s : Sketch) : s.brackets.OpensWith m none :=
  (opensWith_word (w := "[") (by decide)).of_atoms rfl

/-- In parentheses nothing starts with a sign. -/
theorem OpensWith.parensIf {b : Bool} (hs : b = false → s.OpensWith m sign) :
    (parensIf b s).OpensWith m (if b then none else sign) := by
  cases b with
  | false => exact hs rfl
  | true => exact opensWith_parens s

theorem OpensWith.parensIf_none (hs : s.OpensWith m none) (b : Bool) :
    (Sketch.parensIf b s).OpensWith m none := by
  simpa using OpensWith.parensIf (b := b) fun _ => hs

theorem OpensWith.parensIf_decide (hs : s.OpensWith m sign) (p : Prop) [Decidable p] :
    (Sketch.parensIf (decide p) s).OpensWith m (if p then none else sign) := by
  simpa using OpensWith.parensIf (b := decide p) fun _ => hs

theorem OpensWith.punctuate (hs : s.OpensWith m sign) (ss : List Sketch) (arrangement : Row)
    (rest : List Sketch) :
    (Sketch.row arrangement (Sketch.punctuate (s :: ss) ++ rest)).OpensWith m sign := by
  cases ss with
  | nil => exact hs.row arrangement rest
  | cons => exact (hs.append _).row arrangement _

end Sketch

open Sketch

/-- A tree without a place and an empty line before it starts as its plan does. -/
theorem Node.WellFormed.opensWith {t : Node} (ht : t.WellFormed) {m : Mode} {level : Nat}
    {sign : Option Char} (hmark : t.mark? = none) (hspaced : t.isSpaced = false)
    (h : (t.sketch level).OpensWith m sign) : (t.pretty m level).value.OpensWith sign := by
  rw [value_pretty m (wellFormed_iff.mp ht).1 level, introduce, hmark, hspaced]
  exact h.doc

/-! ### Names and literals -/

/-- The names of a tree are written with the characters of names. -/
def Node.IsSpelled (a : Alphabet) : Node → Prop
  | .name n => a.IsName n
  | .moduleName mod => a.IsModule mod
  | _ => True

def Node.Spelled (a : Alphabet) (t : Node) : Prop := t.Everywhere (IsSpelled a)

theorem Node.everywhere_children_iff {P : Node → Prop} {t : Node} :
    t.Everywhere P ↔ P t ∧ t.children.Forall (Everywhere P) := by
  rw [List.forall_iff_forall_mem]
  constructor
  · rintro ⟨here, below⟩
    exact ⟨here, below⟩
  · rintro ⟨here, below⟩
    exact .intro here below

theorem Node.Spelled.child {a : Alphabet} {t c : Node} (ht : t.Spelled a)
    (hc : c ∈ t.children) : c.Spelled a :=
  List.forall_iff_forall_mem.mp (everywhere_children_iff.mp ht).2 c hc

theorem Node.WellFormed.child {t c : Node} (ht : t.WellFormed)
    (hc : c ∈ t.children) : c.WellFormed :=
  List.forall_iff_forall_mem.mp (wellFormed_iff.mp ht).2 c hc

section

variable {a : Alphabet} {m : Mode}

theorem not_sign_of_isWord {c : Char} (hc : a.isWord c = true) : c ∉ asciiSymbols ∧ c ≠ '\x7b' := by
  constructor
  · intro h
    have hkinds : asciiSymbols.all (fun d => d.toNat < 128 && asciiKind d = .symbol) = true := by
      decide
    have hkind := List.all_eq_true.mp hkinds c h
    simp only [Bool.and_eq_true, decide_eq_true_eq] at hkind
    have hsymbol : a.isSymbol c = true := Alphabet.isSymbol_of_asciiKind hkind.1 hkind.2
    rw [Alphabet.isSymbol_of_isWord hc] at hsymbol
    contradiction
  · rintro rfl
    rw [Alphabet.isWord_of_ascii (by decide)] at hc
    exact absurd hc (by decide)

theorem signOf_of_isWord {s : String} (hs : ∀ c ∈ s.toList.head?, a.isWord c = true) :
    signOf s = none := by
  rw [signOf_eq_none_iff, opensSoftly, Option.all_eq_true]
  exact fun c hc => by simpa using (not_sign_of_isWord (hs c hc)).1

theorem closesSoftly_of_isWord {s : String} (hs : ∀ c ∈ s.toList.getLast?, a.isWord c = true) :
    closesSoftly s = true := by
  rw [closesSoftly, Option.all_eq_true]
  exact fun c hc => by simpa using not_sign_of_isWord (hs c hc)

theorem opensWith_special {con : SpecialCon} (hcon : con.isSymbolic = false) :
    (word con.text).OpensWith m none := by
  cases con with
  | unit | list => exact opensWith_word (by decide)
  | fn | cons => simp [SpecialCon.isSymbolic] at hcon
  | tuple arity =>
    exact ⟨_, rfl, by simp [SpecialCon.text], signOf_ofList_cons (by decide) _⟩

theorem Name.opensWith_bareSketch {n : Name} (hn : a.IsName n) (hsymbolic : n.isSymbolic = false) :
    n.bareSketch.OpensWith m none := by
  cases hn with
  | @ident s hne _ hs =>
    have hsign : signOf s = none := signOf_of_isWord fun c hc => hs c (List.mem_of_mem_head? hc)
    rw [← hsign]
    exact opensWith_word (by simpa using hne)
  | symbol => simp [isSymbolic] at hsymbolic
  | special => exact opensWith_special hsymbolic

theorem Name.opensWith_sketch {n : Name} (hn : a.IsName n) : n.sketch.OpensWith m none := by
  unfold sketch
  cases hsymbolic : n.isSymbolic with
  | false => exact n.opensWith_bareSketch hn hsymbolic
  | true => exact opensWith_parens _

theorem opensWith_moduleDot {mod : ModuleName} (hmod : a.IsModule mod) :
    (word (mod.text ++ ".")).OpensWith m none := by
  obtain ⟨parts, hne, hparts, htext⟩ := hmod
  obtain ⟨p, rest, rfl⟩ := List.exists_cons_of_ne_nil hne
  have hp := hparts p (by simp)
  have hword := hp.forall_isWord (by decide)
  obtain ⟨c, cs, rfl, -⟩ := hp
  have hhead : (mod.text ++ ".").toList.head? = some c := by
    rw [String.toList_append, htext]
    cases rest with
    | nil => simp
    | cons => simp [List.intercalate_cons_cons]
  have hsign : signOf (mod.text ++ ".") = none := signOf_of_isWord fun d hd => by
    rw [hhead] at hd
    obtain rfl := Option.mem_some.mp hd
    exact hword c (by simp)
  rw [← hsign]
  exact opensWith_word (by simp)

theorem QName.opensWith_sketch {q : QName} (hq : (Node.qname q).Spelled a) :
    q.sketch.OpensWith m none := by
  obtain ⟨qualifier, name⟩ := q
  obtain ⟨-, below⟩ := hq
  obtain ⟨hname, -⟩ := below (.name name) (by simp [Node.children, children])
  unfold sketch
  cases hsymbolic : name.isSymbolic with
  | true =>
    rw [isSymbolic, hsymbolic]
    exact opensWith_parens _
  | false =>
    rw [isSymbolic, hsymbolic]
    have hbare := name.opensWith_bareSketch hname hsymbolic (m := m)
    cases qualifier with
    | none => cases name <;> exact hbare
    | some mod =>
      obtain ⟨hmod, -⟩ := below (.moduleName mod) (by simp [Node.children, children])
      cases name with
      | special con =>
        simp only [bareSketch]
        split
        · exact hbare
        · exact (opensWith_moduleDot hmod).append _
      | _ => exact (opensWith_moduleDot hmod).append _

theorem Literal.opensWith_sketch (l : Literal) :
    l.sketch.OpensWith m (if l.isNegative then some '-' else none) := by
  have hdecimal :
      ∀ n : Int, (word (Number.decimalText n)).OpensWith m (if n < 0 then some '-' else none) := by
    intro n
    refine ⟨_, rfl, (isWord_decimalText n).1, ?_⟩
    by_cases hn : n < 0
    · rw [if_pos hn]
      exact signOf_eq_minus_iff.mpr (head?_decimalText hn)
    · rw [if_neg hn]
      exact signOf_eq_none_iff.mpr (opensSoftly_decimalText hn)
  have hreal : ∀ {f : Number.Format} (x : Number.Binary f),
      (word (Number.realText x)).OpensWith m (if x.isNegative then some '-' else none) := by
    intro f x
    refine ⟨_, rfl, (isWord_realText x).1, ?_⟩
    cases hx : x.isNegative with
    | true => exact signOf_eq_minus_iff.mpr (Number.Binary.head?_realText hx)
    | false => exact signOf_eq_none_iff.mpr (Number.Binary.opensSoftly_realText hx)
  have hchar : ∀ c, (word (Text.charLiteral c)).OpensWith m none := by
    intro c
    refine ⟨_, rfl, (isWord_charLiteral c).1, ?_⟩
    unfold Text.charLiteral
    split
    · decide
    · exact signOf_ofList_cons (by decide) _
  have hstring : ∀ s, (word (Text.stringLiteral s)).OpensWith m none := by
    intro s
    exact ⟨_, rfl, (isWord_stringLiteral s).1, signOf_ofList_cons (by decide) _⟩
  cases l with
  | char c => exact hchar c
  | string s => exact hstring s
  | int n => simpa [sketch, isNegative] using hdecimal n.val
  | frac r => simpa [sketch, isNegative, Number.Binary.isNegative_toDouble] using hreal r.toDouble
  | charPrim c => exact (hchar c).append _
  | stringPrim s => exact (hstring s).append _
  | intPrim n => simpa [sketch, isNegative] using (hdecimal n.val).append _
  | floatPrim r =>
    have hfloat := hreal (r.toDouble.convert : Number.Single)
    rw [Number.Binary.isNegative_convert] at hfloat
    simpa [sketch, isNegative, Number.Binary.isNegative_toDouble] using hfloat.append _
  | doublePrim r =>
    simpa [sketch, isNegative, Number.Binary.isNegative_toDouble] using (hreal r.toDouble).append _

/-! ### Types and fields -/

theorem Node.opensWith_ty {t : Ty} (ht : (Node.ty t).WellFormed) (hs : (Node.ty t).Spelled a)
    (level : Nat) : ((Node.ty t).pretty m level).value.OpensWith none := by
  apply ht.opensWith rfl rfl
  cases t with
  | fn source target =>
    have hmem : Node.ty source ∈ (Node.ty (.fn source target)).children := by
      simp [children, Ty.children]
    have hsource := opensWith_ty (ht.child hmem) (hs.child hmem) 1
    exact ((opensWith_tree hsource).row .fillOnside _).parensIf_none _
  | tuple elems => exact opensWith_parens _
  | app f arg =>
    have hmem : Node.ty f ∈ (Node.ty (.app f arg)).children := by simp [children, Ty.children]
    have hf := opensWith_ty (ht.child hmem) (hs.child hmem) 1
    simp only [Node.sketch, Ty.sketch]
    split
    · exact opensWith_brackets _
    · exact ((opensWith_tree hf).row .fillOnside _).parensIf_none _
  | var name =>
    obtain ⟨hname, -⟩ := hs.child (c := .name name) (by simp [children, Ty.children])
    exact name.opensWith_sketch hname
  | con name => exact name.opensWith_sketch (hs.child (by simp [children, Ty.children]))

/-- The fields of a record start with a name, or with a colon if none is declared. -/
theorem Node.opensWith_fieldDecl {f : FieldDecl} (hf : (Node.fieldDecl f).WellFormed)
    (hs : (Node.fieldDecl f).Spelled a) :
    ∃ sign, ((Node.fieldDecl f).pretty m 0).value.OpensWith sign ∧ sign ≠ some '-' := by
  obtain ⟨names, ty⟩ := f
  cases names with
  | nil =>
    exact ⟨some ':', hf.opensWith rfl rfl ((opensWith_word (w := "::") (by decide)).row .fill _),
      by decide⟩
  | cons name names =>
    obtain ⟨hname, -⟩ := hs.child (c := .name name) (by simp [children])
    exact ⟨none, hf.opensWith rfl rfl ((name.opensWith_sketch hname).punctuate _ .fill _), by simp⟩

theorem Node.opensWith_patField {f : PatField} (hf : (Node.patField f).WellFormed)
    (hs : (Node.patField f).Spelled a) : ((Node.patField f).pretty m 0).value.OpensWith none := by
  obtain ⟨field, pat⟩ := f
  have hfield : (Node.qname field).Spelled a := hs.child (by simp [children, PatField.children])
  exact hf.opensWith rfl rfl ((field.opensWith_sketch hfield).row .fillOnside _)

theorem Node.opensWith_fieldUpdate {f : FieldUpdate} (hf : (Node.fieldUpdate f).WellFormed)
    (hs : (Node.fieldUpdate f).Spelled a) :
    ((Node.fieldUpdate f).pretty m 0).value.OpensWith none := by
  obtain ⟨field, e⟩ := f
  have hfield : (Node.qname field).Spelled a := hs.child (by simp [children, FieldUpdate.children])
  exact hf.opensWith rfl rfl ((field.opensWith_sketch hfield).row .fillOnside _)

/-! ### Patterns and expressions -/

/-- The sign that a pattern starts with at a level. -/
def Pat.sign (level : Nat) : Pat → Option Char
  | .irrefutable _ => some '~'
  | .neg _ => if 0 < level then none else some '-'
  | .lit l => if 0 < level && l.isNegative then none else if l.isNegative then some '-' else none
  | .infixApp left _ _ => if 0 < level then none else left.sign 1
  | _ => none

theorem Node.opensWith_pat {p : Pat} (hp : (Node.pat p).WellFormed) (hs : (Node.pat p).Spelled a)
    (level : Nat) : ((Node.pat p).pretty m level).value.OpensWith (p.sign level) := by
  apply hp.opensWith rfl rfl
  cases p with
  | var name =>
    obtain ⟨hname, -⟩ := hs.child (c := .name name) (by simp [children, Pat.children])
    exact name.opensWith_sketch hname
  | lit l => exact OpensWith.parensIf fun _ => l.opensWith_sketch
  | neg pat => exact ((opensWith_word (w := "-") (by decide)).append _).parensIf_decide _
  | infixApp left op right =>
    have hmem : Node.pat left ∈ (Node.pat (.infixApp left op right)).children := by
      simp [children, Pat.children]
    have hleft := opensWith_pat (hp.child hmem) (hs.child hmem) 1
    exact ((opensWith_tree hleft).row .fillOnside _).parensIf_decide _
  | app con args =>
    have hcon : (Node.qname con).Spelled a := hs.child (by simp [children, Pat.children])
    exact ((con.opensWith_sketch hcon).row .fillOnside _).parensIf_none _
  | tuple elems => exact opensWith_parens _
  | list elems => exact opensWith_brackets _
  | paren pat => exact opensWith_parens _
  | record con fields =>
    have hcon : (Node.qname con).Spelled a := hs.child (by simp [children, Pat.children])
    exact (con.opensWith_sketch hcon).append _
  | asPat name pat =>
    obtain ⟨hname, -⟩ := hs.child (c := .name name) (by simp [children, Pat.children])
    exact (name.opensWith_sketch hname).of_atoms (Pat.atoms_asPat level name pat)
  | wildcard => exact opensWith_word (by decide)
  | irrefutable pat => exact (opensWith_word (w := "~") (by decide)).append _

/-- The sign that an expression starts with at a level. -/
def Expr.sign (level : Nat) : Expr → Option Char
  | .irrefutable _ => some '~'
  | .neg _ => if 3 ≤ level then none else some '-'
  | .lit l => if 3 ≤ level && l.isNegative then none else if l.isNegative then some '-' else none
  | .lambda _ _ _ => if 2 ≤ level then none else some '\\'
  | .infixApp left _ _ => if 3 ≤ level then none else left.sign 2
  | .app f _ => if 4 ≤ level then none else f.sign 3
  | .typed _ e _ => if 1 ≤ level then none else e.sign 2
  | .recUpdate e _ => e.sign 4
  | _ => none

/-- An expression whose first word is neither a name nor that of a part. -/
def Expr.startsItself : Expr → Bool
  | .var _ | .con _ | .infixApp _ _ _ | .app _ _ | .recConstr _ _ | .recUpdate _ _ | .typed _ _ _
  | .asPat _ _ => false
  | _ => true

theorem Expr.opensWith_sketch {e : Expr} (he : e.startsItself = true) (level : Nat) :
    (e.sketch level).OpensWith m (e.sign level) := by
  cases e with
  | lit l => exact OpensWith.parensIf fun _ => l.opensWith_sketch
  | neg e => exact ((opensWith_word (w := "-") (by decide)).append _).parensIf_decide _
  | lambda loc pats body =>
    exact ((opensWith_word (w := "\\") (by decide)).row .fillOnside _).parensIf_decide _
  | letIn decls body =>
    exact (((opensWith_word (w := "let") (by decide)).appendSpace _).row .fillOnside
      _).parensIf_none _
  | ifThenElse cond yes no =>
    exact ((opensWith_word (w := "if") (by decide)).row .fillOnside _).parensIf_none _
  | caseOf scrutinee alts =>
    exact (((opensWith_word (w := "case") (by decide)).row .fillOnside _).upon _).parensIf_none _
  | doBlock stmts => exact ((opensWith_word (w := "do") (by decide)).upon _).parensIf_none _
  | tuple elems => exact opensWith_parens _
  | list elems => exact opensWith_brackets _
  | paren e => exact opensWith_parens _
  | leftSection e op => exact opensWith_parens _
  | rightSection op e => exact opensWith_parens _
  | enumFrom | enumFromTo | enumFromThen | enumFromThenTo | listComp => exact opensWith_brackets _
  | wildcard => exact opensWith_word (by decide)
  | irrefutable e => exact (opensWith_word (w := "~") (by decide)).append _
  | _ => cases he

theorem Node.opensWith_expr {e : Expr} (he : (Node.expr e).WellFormed)
    (hs : (Node.expr e).Spelled a) (level : Nat) :
    ((Node.expr e).pretty m level).value.OpensWith (e.sign level) := by
  apply he.opensWith rfl rfl
  cases e with
  | var name | con name =>
    exact name.opensWith_sketch (hs.child (by simp [children, Expr.children]))
  | infixApp left op right =>
    have hmem : Node.expr left ∈ (Node.expr (.infixApp left op right)).children := by
      simp [children, Expr.children]
    have hleft := opensWith_expr (he.child hmem) (hs.child hmem) 2
    exact ((opensWith_tree hleft).row .fillOnside _).parensIf_decide _
  | app f arg =>
    have hmem : Node.expr f ∈ (Node.expr (.app f arg)).children := by simp [children, Expr.children]
    have hf := opensWith_expr (he.child hmem) (hs.child hmem) 3
    exact ((opensWith_tree hf).row .fillOnside _).parensIf_decide _
  | recConstr name fields =>
    have hname : (Node.qname name).Spelled a := hs.child (by simp [children, Expr.children])
    exact (name.opensWith_sketch hname).append _
  | recUpdate e fields =>
    have hmem : Node.expr e ∈ (Node.expr (.recUpdate e fields)).children := by
      simp [children, Expr.children]
    have hfirst := opensWith_expr (he.child hmem) (hs.child hmem) 4
    exact (opensWith_tree hfirst).append _
  | typed loc e ty =>
    have hmem : Node.expr e ∈ (Node.expr (.typed loc e ty)).children := by
      simp [children, Expr.children]
    have hfirst := opensWith_expr (he.child hmem) (hs.child hmem) 2
    exact ((opensWith_tree hfirst).row .fillOnside _).parensIf_decide _
  | asPat name e =>
    obtain ⟨hname, -⟩ := hs.child (c := .name name) (by simp [children, Expr.children])
    exact (name.opensWith_sketch hname).of_atoms (Expr.atoms_asPat level name e)
  | _ => exact Expr.opensWith_sketch rfl level

end

end Syntax

end Offside
