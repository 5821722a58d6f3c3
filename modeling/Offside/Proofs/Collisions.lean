import Offside.Proofs.FirstSigns
import Offside.Proofs.InlineLayout

/-!
# Where printed texts run together

The printer puts a sign right before what it belongs to: a minus sign before a negated operand, a
tilde before an irrefutable one, an at sign before a named one. Only before a tilde the at sign is
set apart. So a sign meets another where the operand starts with a tilde itself, and in no other
place. The brace of a module meets a minus sign where the first declaration binds a negative
pattern.
-/
namespace Offside

open Doc Reading Syntax

/-! ### First signs of documents -/

/-- The operator sign that a document starts with. -/
def Doc.firstSign (d : Doc) : Option Char := d.opening.bind signOf

theorem Doc.OpensWith.firstSign_eq {sign : Option Char} {d : Doc} (hopens : d.OpensWith sign)
    (hd : d.Full) : d.firstSign = sign := by
  obtain ⟨w, hw, hsign⟩ := hopens.head_beads hd
  rw [firstSign, opening, hw]
  exact hsign

theorem Doc.OpensWith.beads_ne_nil {sign : Option Char} {d : Doc} (hopens : d.OpensWith sign)
    (hd : d.Full) : d.beads ≠ [] := by
  obtain ⟨w, hw, -⟩ := hopens.head_beads hd
  exact List.ne_nil_of_mem (List.mem_of_mem_head? hw)

section

variable {a : Alphabet}

/-- Whether the text ends in a sign that is no dot, so that no module can stand before it. -/
def Reading.isSign (s : String) : Bool := s.toList.getLast?.any fun c => c ∈ asciiSymbols && c ≠ '.'

/-- A sign fuses with every other one. -/
theorem Reading.fuses_sign_iff {s : String} (hs : isSign s = true) (w : String) :
    a.Fuses s w ↔ (signOf w).isSome = true := by
  obtain ⟨c, hlast, hc⟩ := (Option.any_eq_true _ _).mp hs
  simp only [Bool.and_eq_true, decide_eq_true_eq] at hc
  obtain ⟨hsign, hdot⟩ := hc
  have hmodule : ¬ ∃ m : ModuleName, a.IsModule m ∧ s = m.text ++ "." := by
    rintro ⟨m, -, rfl⟩
    have hend : '.' = c := by simpa using hlast
    exact hdot hend.symm
  have hbrace : c ≠ '\x7b' := by
    rintro rfl
    exact absurd hsign (by decide)
  rw [Alphabet.Fuses, hlast, signOf]
  cases w.toList.head? with
  | none => simp
  | some d => by_cases hd : d ∈ asciiSymbols <;> simp [hsign, hmodule, hbrace, hd, Option.filter]

theorem Reading.fuses_lbrace_iff (w : String) : a.Fuses "\x7b" w ↔ signOf w = some '-' := by
  have hbrace : '\x7b' ∉ asciiSymbols := by decide
  rw [Alphabet.Fuses, signOf_eq_minus_iff]
  simp [hbrace]

theorem Doc.sign_meets_iff {s : String} (hs : isSign s = true) (r : Doc) :
    (text s).Meets a.Fuses r ↔ r.firstSign.isSome = true := by
  have hne : s ≠ "" := by
    rintro rfl
    exact absurd hs (by decide)
  rw [Meets, closing_text hne, firstSign]
  cases r.opening <;> simp [fuses_sign_iff hs]

theorem Doc.lbrace_meets_iff (r : Doc) : lbrace.Meets a.Fuses r ↔ r.firstSign = some '-' := by
  have hclosing : lbrace.closing = some "\x7b" := closing_text (by decide)
  rw [Meets, hclosing, firstSign]
  cases r.opening <;> simp [fuses_lbrace_iff]

theorem Doc.append_text_meets_iff {s : String} (hs : s ≠ "") (l r : Doc) :
    (l ++ text s).Meets a.Fuses r ↔ (text s).Meets a.Fuses r := by
  have hclosing : (l ++ text s).closing = (text s).closing := by
    rw [closing_text hs, closing, beads_append, Beads.final_append]
    simp [beads, hs]
  rw [Meets, Meets, hclosing]

/-- What stands in parentheses or braces can be put after anything. -/
theorem Doc.not_meets_enclosed (l : Doc) {w : String} (hne : w ≠ "")
    (hw : opensSoftly w = true) (d r : Doc) : ¬ l.Meets a.Fuses (text w ++ d ++ r) := by
  refine not_meets_of_opening l fun v hv => ?_
  rw [opening, beads_append, beads_append] at hv
  obtain rfl : w = v := by simpa [beads, hne] using hv
  exact hw

@[simp] theorem Mode.not_meets_parenList (m : Mode) (l : Doc) (ds : List Doc) :
    ¬ l.Meets a.Fuses (m.parenList ds) :=
  not_meets_enclosed l (w := "(") (by decide) (by decide) _ _

@[simp] theorem Mode.not_meets_braceList (m : Mode) (l : Doc) (ds : List Doc) :
    ¬ l.Meets a.Fuses (m.braceList ds) :=
  not_meets_enclosed l (w := "\x7b") (by decide) (by decide) _ _

end

/-- The first member of a row shows its sign. -/
theorem Doc.head?_beadsRow_punctuate {d : Doc} (hd : d.beads ≠ []) (separator : Doc)
    (ds : List Doc) : (beadsRow (punctuate separator (d :: ds))).head? = d.beads.head? := by
  have hne : d.isEmpty = false := by
    rw [← Bool.not_eq_true]
    exact fun h => hd (beads_of_isEmpty h)
  cases ds with
  | nil => simp [punctuate, beadsRow, hne, beadsMore]
  | cons e ds => simp [punctuate, beadsRow, hne, List.head?_append_of_ne_nil _ hd]

theorem Mode.firstSign_fill_punctuate (m : Mode) {d : Doc} (hd : d.beads ≠ []) (separator : Doc)
    (ds : List Doc) : (m.fill (punctuate separator (d :: ds))).firstSign = d.firstSign := by
  have hrow : (m.fill (punctuate separator (d :: ds))).beads =
      beadsRow (punctuate separator (d :: ds)) :=
    m.beads_row .fill _
  rw [firstSign, firstSign, opening, opening, hrow, head?_beadsRow_punctuate hd]

theorem Doc.firstSign_hsep_punctuate {d : Doc} (hd : d.beads ≠ []) (separator : Doc)
    (ds : List Doc) : (hsep (punctuate separator (d :: ds))).firstSign = d.firstSign := by
  rw [firstSign, firstSign, opening, opening, beads_hsep, head?_beadsRow_punctuate hd]

namespace Syntax

open Sketch

/-! ### Names and literals -/

section

variable {a : Alphabet} {m : Mode}

@[simp] theorem Name.collides_bareSketch (n : Name) : ¬ n.bareSketch.Collides a m := by
  cases n <;> simp [bareSketch]

@[simp] theorem Name.collides_sketch (n : Name) : ¬ n.sketch.Collides a m := by
  simp [sketch]

@[simp] theorem Name.collides_infixSketch (n : Name) : ¬ n.infixSketch.Collides a m := by
  unfold infixSketch
  split <;> simp

theorem QName.collides_bareSketch {q : QName} (hq : (Node.qname q).Spelled a) :
    ¬ q.bareSketch.Collides a m := by
  obtain ⟨qualifier, name⟩ := q
  obtain ⟨-, below⟩ := hq
  cases qualifier with
  | none => cases name <;> simp [bareSketch]
  | some mod =>
    obtain ⟨hmod, -⟩ := below (.moduleName mod) (by simp [Node.children, children])
    have hmeets : ∀ r : Doc, ¬ (text (mod.text ++ ".")).Meets a.Fuses r := by
      rintro r ⟨s, hs, w, -, hfuses⟩
      rw [mem_closing_text hs] at hfuses
      exact not_fuses_of_isModule hmod w hfuses
    cases name with
    | special con =>
      simp only [bareSketch]
      split <;> simp [hmeets]
    | _ => simp [bareSketch, hmeets]

theorem QName.collides_sketch {q : QName} (hq : (Node.qname q).Spelled a) :
    ¬ q.sketch.Collides a m := by
  simpa [sketch] using q.collides_bareSketch hq

theorem QName.collides_infixSketch {q : QName} (hq : (Node.qname q).Spelled a) :
    ¬ q.infixSketch.Collides a m := by
  unfold infixSketch
  split
  · exact q.collides_bareSketch hq
  · simpa using q.collides_bareSketch hq

/-- Nothing fuses with the end of a name. -/
theorem Name.not_meets {n : Name} (hn : a.IsName n) (r : Doc) : ¬ n.doc.Meets a.Fuses r := by
  cases hsymbolic : n.isSymbolic with
  | true =>
    rw [doc, hsymbolic]
    show ¬ (_ ++ text ")").Meets a.Fuses r
    rw [append_text_meets_iff (by decide)]
    exact not_text_meets (by decide) r
  | false =>
    rw [doc, hsymbolic]
    cases hn with
    | @ident s hne _ hs =>
      exact not_text_meets (closesSoftly_of_isWord fun c hc => hs c (List.mem_of_mem_getLast? hc)) r
    | symbol => simp [isSymbolic] at hsymbolic
    | @special con =>
      apply not_text_meets
      cases con with
      | unit | list => decide
      | fn | cons => simp [isSymbolic, SpecialCon.isSymbolic] at hsymbolic
      | tuple arity =>
        rw [closesSoftly, SpecialCon.text, String.toList_ofList, List.getLast?_concat]
        decide

@[simp] theorem Literal.collides_sketch (l : Literal) : ¬ l.sketch.Collides a m := by
  have hdecimal : ∀ (n : Int) (r : Doc), ¬ (text (Number.decimalText n)).Meets a.Fuses r := fun n =>
    not_text_meets (closesSoftly_of_isDigit (isDigit_last_decimalText n))
  have hreal : ∀ {f : Number.Format} (x : Number.Binary f) (r : Doc),
      ¬ (text (Number.realText x)).Meets a.Fuses r :=
    fun x => not_text_meets (closesSoftly_realText x)
  have hchar : ∀ (c : Char) (r : Doc), ¬ (text (Text.charLiteral c)).Meets a.Fuses r := by
    intro c
    apply not_text_meets
    unfold Text.charLiteral
    split
    · decide
    · rw [closesSoftly, String.toList_ofList, List.getLast?_concat]
      decide
  have hstring : ∀ (s : String) (r : Doc), ¬ (text (Text.stringLiteral s)).Meets a.Fuses r := by
    intro s
    apply not_text_meets
    rw [closesSoftly, Text.stringLiteral, String.toList_ofList, List.getLast?_concat]
    decide
  cases l <;> simp [sketch, hdecimal, hreal, hchar, hstring]

/-! ### Signs before operands -/

/-- Whether a sign of the pattern stands right before another one. -/
def Pat.clashes : Pat → Bool
  | .neg pat | .irrefutable pat => (pat.sign 2).isSome
  | _ => false

/-- Whether a sign of the expression stands right before another one. -/
def Expr.clashes : Expr → Bool
  | .neg e => (e.sign 3).isSome
  | .irrefutable e => (e.sign 4).isSome
  | .asPat _ (.irrefutable _) => false
  | .asPat _ e => (e.sign 4).isSome
  | _ => false

theorem Pat.sign_eq_none {p : Pat} (hp : ∀ q, p ≠ .irrefutable q) {level : Nat}
    (hlevel : 0 < level) : p.sign level = none := by
  cases p with
  | irrefutable q => exact absurd rfl (hp q)
  | lit l => cases hl : l.isNegative <;> simp [sign, hl, hlevel]
  | _ => simp [sign, hlevel]

theorem Pat.sign_ne_minus (p : Pat) {level : Nat} (hlevel : 0 < level) :
    p.sign level ≠ some '-' := by
  by_cases hp : ∃ q, p = .irrefutable q
  · obtain ⟨q, rfl⟩ := hp
    simp [Pat.sign]
  · simp [Pat.sign_eq_none (fun q hq => hp ⟨q, hq⟩) hlevel]

/-- Whether the declaration binds a pattern that starts with a minus sign. -/
def Decl.negates : Decl → Bool
  | .patBind _ pat _ _ => pat.sign 0 = some '-'
  | _ => false

namespace Node

variable {t : Node} (hs : t.Spelled a)
include hs

theorem Spelled.names (n : Name) (hn : .name n ∈ t.children) (r : Doc) : ¬ n.doc.Meets a.Fuses r :=
  n.not_meets (everywhere_iff.mp hs _ (.child hn .here)) r

theorem Spelled.qnames (q : QName) (hq : .qname q ∈ t.children) :
    ¬ q.sketch.Collides a m ∧ ¬ q.infixSketch.Collides a m :=
  ⟨q.collides_sketch (hs.child hq), q.collides_infixSketch (hs.child hq)⟩

theorem Spelled.qops (o : QOp) (ho : .qop o ∈ t.children) : ¬ o.name.infixSketch.Collides a m :=
  o.name.collides_infixSketch ((hs.child ho).child (by simp [children]))

end Node

namespace Node

/-- A sign right before a tree meets the sign that the tree starts with. -/
theorem sign_meets_pat {p : Pat} (hp : (Node.pat p).WellFormed)
    (hs : (Node.pat p).Spelled a) {s : String} (hsign : isSign s = true) (level : Nat) :
    (text s).Meets a.Fuses ((Node.pat p).pretty m level).value ↔ (p.sign level).isSome = true := by
  rw [sign_meets_iff hsign, (opensWith_pat hp hs level).firstSign_eq (hp.full m level)]

theorem sign_meets_expr {e : Expr} (he : (Node.expr e).WellFormed)
    (hs : (Node.expr e).Spelled a) {s : String} (hsign : isSign s = true) (level : Nat) :
    (text s).Meets a.Fuses ((Node.expr e).pretty m level).value ↔ (e.sign level).isSome = true := by
  rw [sign_meets_iff hsign, (opensWith_expr he hs level).firstSign_eq (he.full m level)]

/-- No field starts with a minus sign. -/
theorem not_lbrace_meets_fields {α : Type} (node : α → Node) (fields : List α)
    (hfields : ∀ f ∈ fields, (node f).WellFormed ∧
      ∃ sign, ((node f).pretty m 0).value.OpensWith sign ∧ sign ≠ some '-') :
    ¬ lbrace.Meets a.Fuses (m.fill (Doc.punctuate comma (fields.map fun f =>
      ((node f).pretty m 0).value))) := by
  rw [lbrace_meets_iff]
  cases fields with
  | nil =>
    have hempty : (m.fill (Doc.punctuate comma [])).beads = [] := m.beads_row .fill []
    simp [firstSign, opening, hempty]
  | cons f fields =>
    obtain ⟨hf, sign, hopens, hsign⟩ := hfields f (by simp)
    rw [List.map_cons, m.firstSign_fill_punctuate (hopens.beads_ne_nil (hf.full m 0)),
      hopens.firstSign_eq (hf.full m 0)]
    exact hsign

theorem collides_pat {p : Pat} (hp : (Node.pat p).WellFormed) (hs : (Node.pat p).Spelled a)
    (level : Nat) : (p.sketch level).Collides a m ↔ p.clashes = true := by
  have hqname := hs.qnames (m := m)
  have hbelow : ∀ q, .pat q ∈ (Node.pat p).children → ∀ {s : String}, isSign s = true →
      ((text s).Meets a.Fuses ((Node.pat q).pretty m 2).value ↔ (q.sign 2).isSome = true) :=
    fun q hq _ hsign => sign_meets_pat (hp.child hq) (hs.child hq) hsign 2
  cases p with
  | neg pat =>
    simp [Pat.sketch, Pat.clashes,
      hbelow pat (by simp [children, Pat.children]) (s := "-") (by decide)]
  | irrefutable pat =>
    simp [Pat.sketch, Pat.clashes,
      hbelow pat (by simp [children, Pat.children]) (s := "~") (by decide)]
  | asPat name pat =>
    have hname := hs.names name (by simp [children, Pat.children])
    have hpat := hbelow pat (by simp [children, Pat.children]) (s := "@") (by decide)
    cases pat with
    | irrefutable pat => simp [Pat.sketch, Pat.clashes, hname]
    | _ => simp [Pat.sketch, Pat.clashes, hname, append_text_meets_iff, hpat, Pat.sign_eq_none]
  | record con fields =>
    have hfields := not_lbrace_meets_fields (a := a) (m := m) .patField fields fun f hf =>
      have hmem : Node.patField f ∈ (Node.pat (.record con fields)).children := by
        simp [children, Pat.children, hf]
      ⟨hp.child hmem, none, opensWith_patField (hp.child hmem) (hs.child hmem), by simp⟩
    simp [Pat.sketch, Pat.clashes, hqname con (by simp [children, Pat.children]), hfields,
      Function.comp_def]
  | infixApp left op right =>
    simp [Pat.sketch, Pat.clashes, hqname op (by simp [children, Pat.children])]
  | app con args => simp [Pat.sketch, Pat.clashes, hqname con (by simp [children, Pat.children])]
  | _ => simp [Pat.sketch, Pat.clashes]

theorem collides_expr {e : Expr} (he : (Node.expr e).WellFormed) (hs : (Node.expr e).Spelled a)
    (level : Nat) : (e.sketch level).Collides a m ↔ e.clashes = true := by
  have hqname := hs.qnames (m := m)
  have hqop := hs.qops (m := m)
  have hbelow : ∀ f, .expr f ∈ (Node.expr e).children → ∀ {s : String}, isSign s = true → ∀ level,
      ((text s).Meets a.Fuses ((Node.expr f).pretty m level).value ↔
      (f.sign level).isSome = true) :=
    fun f hf _ hsign => sign_meets_expr (he.child hf) (hs.child hf) hsign
  have hfields :
      ∀ fields : List FieldUpdate, (∀ f ∈ fields, .fieldUpdate f ∈ (Node.expr e).children) →
      ¬ lbrace.Meets a.Fuses
        (m.fill (Doc.punctuate comma (fields.map fun f =>
          ((Node.fieldUpdate f).pretty m 0).value))) :=
    fun fields hmem => not_lbrace_meets_fields .fieldUpdate fields fun f hf =>
      ⟨he.child (hmem f hf), none,
        opensWith_fieldUpdate (he.child (hmem f hf)) (hs.child (hmem f hf)), by simp⟩
  cases e with
  | neg e =>
    simp [Expr.sketch, Expr.clashes,
      hbelow e (by simp [children, Expr.children]) (s := "-") (by decide)]
  | irrefutable e =>
    simp [Expr.sketch, Expr.clashes,
      hbelow e (by simp [children, Expr.children]) (s := "~") (by decide)]
  | asPat name e =>
    have hname := hs.names name (by simp [children, Expr.children])
    have hexpr := hbelow e (by simp [children, Expr.children]) (s := "@") (by decide)
    cases e with
    | irrefutable e => simp [Expr.sketch, Expr.clashes, hname]
    | _ => simp [Expr.sketch, Expr.clashes, hname, append_text_meets_iff, hexpr]
  | recConstr name fields =>
    simp [Expr.sketch, Expr.clashes, hqname name (by simp [children, Expr.children]),
      hfields fields (by simp [children, Expr.children]), Function.comp_def]
  | recUpdate e fields =>
    simp [Expr.sketch, Expr.clashes, hfields fields (by simp [children, Expr.children]),
      Function.comp_def]
  | var name | con name =>
    simp [Expr.sketch, Expr.clashes, hqname name (by simp [children, Expr.children])]
  | infixApp left op right =>
    simp [Expr.sketch, Expr.clashes, hqop op (by simp [children, Expr.children])]
  | leftSection e op | rightSection op e =>
    simp [Expr.sketch, Expr.clashes, hqop op (by simp [children, Expr.children])]
  | enumFromThen | enumFromThenTo =>
    simp [Expr.sketch, Expr.clashes, not_meets_text _ (w := ",") (by decide)]
  | lambda => simp [Expr.sketch, Expr.clashes, or_imp, forall_and]
  | _ =>
    clear hqname hqop hbelow hfields
    simp [Expr.sketch, Expr.clashes]

theorem collides_conDecl {c : ConDecl} (hc : (Node.conDecl c).WellFormed)
    (hs : (Node.conDecl c).Spelled a) : ¬ c.sketch.Collides a m := by
  cases c with
  | positional loc name args =>
    rcases args with _ | ⟨x, _ | ⟨y, _ | ⟨z, rest⟩⟩⟩
    · simp [ConDecl.sketch]
    · simp [ConDecl.sketch]
    · by_cases hn : name.isSymbolic <;> simp [ConDecl.sketch, hn]
    · simp [ConDecl.sketch]
  | record loc name fields =>
    have hfields := not_lbrace_meets_fields (a := a) (m := m) .fieldDecl fields fun f hf =>
      have hmem : Node.fieldDecl f ∈ (Node.conDecl (.record loc name fields)).children := by
        simp [children, ConDecl.children, hf]
      ⟨hc.child hmem, opensWith_fieldDecl (hc.child hmem) (hs.child hmem)⟩
    simp [ConDecl.sketch, hfields, Function.comp_def]

theorem collides_bangType {b : BangType} (hb : (Node.bangType b).WellFormed)
    (hs : (Node.bangType b).Spelled a) (level : Nat) : ¬ (b.sketch level).Collides a m := by
  cases b with
  | banged ty =>
    have hmem : Node.ty ty ∈ (Node.bangType (.banged ty)).children := by
      simp [children, BangType.children]
    have hsign :=
      (opensWith_ty (hb.child hmem) (hs.child hmem) (m := m) 2).firstSign_eq
        ((hb.child hmem).full m 2)
    simp [BangType.sketch, sign_meets_iff (s := "!") (by decide), hsign]
  | unbanged ty => simp [BangType.sketch]

@[simp] theorem collides_context (c : Context) : ¬ c.sketch.Collides a m := by
  unfold Context.sketch
  split <;> simp

@[simp] theorem collides_entity (entity : String) : ¬ (entitySketch entity).Collides a m := by
  unfold entitySketch
  split <;> simp

@[simp] theorem collides_assoc (x : Assoc) : ¬ x.sketch.Collides a m := by
  cases x <;> simp [Assoc.sketch]

@[simp] theorem collides_safety (x : Safety) : ¬ x.sketch.Collides a m := by
  cases x <;> simp [Safety.sketch]

theorem collides_deriving {qs : List QName} (hqs : ∀ q ∈ qs, ¬ q.sketch.Collides a m) :
    ¬ (derivingSketch qs).Collides a m := by
  rcases qs with _ | ⟨q, _ | ⟨q', qs⟩⟩
  · simp [derivingSketch]
  · simpa [derivingSketch] using hqs
  · simpa [derivingSketch] using hqs

theorem collides_alternatives {ss : List Sketch} (hss : ∀ s ∈ ss, ¬ s.Collides a m) :
    ∀ s ∈ alternativeSketches ss, ¬ s.Collides a m := by
  cases ss with
  | nil => exact hss
  | cons s ss => simpa [alternativeSketches] using hss

theorem collides_clauseHead (name : Name) {ss : List Sketch} (hss : ∀ s ∈ ss, ¬ s.Collides a m) :
    ∀ s ∈ clauseHeadSketches name ss, ¬ s.Collides a m := by
  rcases ss with _ | ⟨x, _ | ⟨y, _ | ⟨z, rest⟩⟩⟩
  · simp [clauseHeadSketches]
  · simpa [clauseHeadSketches] using hss
  · by_cases hn : name.isSymbolic <;> simpa [clauseHeadSketches, hn] using hss
  · by_cases hn : name.isSymbolic <;> simpa [clauseHeadSketches, hn, and_assoc] using hss

theorem collides_decl {d : Decl} (hs : (Node.decl d).Spelled a) : ¬ d.sketch.Collides a m := by
  have hqname := fun q hq => (hs.qnames (m := m) q hq).1
  have hderiving : ∀ qs : List QName, (∀ q ∈ qs, .qname q ∈ (Node.decl d).children) →
      ¬ (derivingSketch qs).Collides a m :=
    fun _ hqs => collides_deriving fun q hq => hqname q (hqs q hq)
  cases d with
  | dataDecl loc context name vars cons derivings =>
    have hderivings := hderiving derivings (by simp +contextual [children, Decl.children])
    have hcons : ∀ s ∈ alternativeSketches (cons.map fun c => .tree (.conDecl c) 0),
        ¬ s.Collides a m :=
      collides_alternatives (by simp)
    simpa [Decl.sketch, hderivings] using hcons
  | newtypeDecl loc context name vars con derivings =>
    have hderivings := hderiving derivings (by simp +contextual [children, Decl.children])
    simp [Decl.sketch, hderivings]
  | instDecl loc context className types decls =>
    have hclass := hqname className (by simp [children, Decl.children])
    simp [Decl.sketch, classSketch, hclass]
  | _ => simp [Decl.sketch, classSketch, or_imp, forall_and]

theorem collides_exportSpec {x : ExportSpec} (hs : (Node.exportSpec x).Spelled a) :
    ¬ x.sketch.Collides a m := by
  have hqname := fun q hq => (hs.qnames (m := m) q hq).1
  have hall := fun l => not_meets_text (a := a) l (w := "(..)") (by decide)
  cases x <;> simp [children, ExportSpec.children] at hqname <;>
    simp [ExportSpec.sketch, hqname, hall]

theorem collides_importSpec (x : ImportSpec) : ¬ x.sketch.Collides a m := by
  have hall := fun l => not_meets_text (a := a) l (w := "(..)") (by decide)
  cases x <;> simp [ImportSpec.sketch, hall]

theorem collides_importDecl (i : ImportDecl) : ¬ i.sketch.Collides a m := by
  obtain ⟨loc, module, qualified, asName, specs⟩ := i
  cases qualified <;> cases asName <;> cases specs <;> simp [ImportDecl.sketch]

/-- Whether a sign of the tree itself stands right before another one. -/
def clashes : Node → Bool
  | .pat p => p.clashes
  | .expr e => e.clashes
  | _ => false

/-- The parts of a tree that is no module collide only in signs. -/
theorem collides_iff {t : Node} (ht : t.WellFormed) (hs : t.Spelled a)
    (hmodule : t.isModule = false) (level : Nat) :
    (t.sketch level).Collides a m ↔ t.clashes = true := by
  have hqname := hs.qnames (m := m)
  cases t with
  | module => simp at hmodule
  | pat p => exact collides_pat ht hs level
  | expr e => exact collides_expr ht hs level
  | exportSpec x => exact iff_of_false (collides_exportSpec hs) (by simp [clashes])
  | importDecl x => exact iff_of_false (collides_importDecl x) (by simp [clashes])
  | importSpec x => exact iff_of_false (collides_importSpec x) (by simp [clashes])
  | decl x => exact iff_of_false (collides_decl hs) (by simp [clashes])
  | conDecl x => exact iff_of_false (collides_conDecl ht hs) (by simp [clashes])
  | bangType x => exact iff_of_false (collides_bangType ht hs level) (by simp [clashes])
  | qname x => exact iff_of_false (x.collides_sketch hs) (by simp [clashes])
  | qop x =>
    exact iff_of_false (x.name.collides_infixSketch (hs.child (by simp [children])))
      (by simp [clashes])
  | ty x =>
    cases x with
    | app f arg => by_cases hf : f.isListCon <;> simp [Node.sketch, Ty.sketch, clashes, hf]
    | con name =>
      simp [Node.sketch, Ty.sketch, clashes, hqname name (by simp [children, Ty.children])]
    | _ => simp [Node.sketch, Ty.sketch, clashes]
  | clause x =>
    obtain ⟨loc, name, pats, rhs, wheres⟩ := x
    have hhead : ∀ s ∈ clauseHeadSketches name (pats.map fun p => .tree (.pat p) 2),
        ¬ s.Collides a m :=
      collides_clauseHead name (by simp)
    simpa [Node.sketch, Match.sketch, clashes, or_imp, forall_and] using hhead
  | importSpecs x =>
    obtain ⟨hides, items⟩ := x
    cases hides <;> simp [Node.sketch, ImportSpecs.sketch, clashes]
  | assertion x => simp [Node.sketch, clashes, hqname x.className (by simp [children])]
  | patField x =>
    obtain ⟨field, pat⟩ := x
    simp [Node.sketch, PatField.sketch, clashes,
      hqname field (by simp [children, PatField.children])]
  | fieldUpdate x =>
    obtain ⟨field, e⟩ := x
    simp [Node.sketch, FieldUpdate.sketch, clashes,
      hqname field (by simp [children, FieldUpdate.children])]
  | rhs x => cases x <;> simp [Node.sketch, Rhs.sketch, clashes]
  | guardedAlts x => cases x <;> simp [Node.sketch, GuardedAlts.sketch, clashes]
  | stmt x => cases x <;> simp [Node.sketch, Stmt.sketch, clashes]
  | alt x | guardedAlt x | guardedRhs x =>
    cases x
    simp [Node.sketch, Alt.sketch, GuardedAlt.sketch, GuardedRhs.sketch, clashes]
  | _ => simp [Node.sketch, clashes, or_imp, forall_and]

/-! ### The brace of a module -/

/-- Whether a pragma with its place is printed before the tree. -/
def isMarked (m : Mode) (t : Node) : Bool := t.mark?.any fun loc => m.linePragmas && !loc.isUnknown

theorem opensWith_marked {sign : Option Char} {d : Doc} (h : d.OpensWith sign) (t : Node) :
    (t.mark?.elim d fun loc => m.markLine loc d).OpensWith
      (if t.isMarked m then none else sign) := by
  have hpragma : ∀ line file, ∃ w, Mode.linePragma line file = text w ∧ w ≠ "" ∧
      signOf w = none := by
    intro line file
    refine ⟨_, rfl, by simp, ?_⟩
    simp [signOf, asciiSymbols]
  unfold isMarked Mode.markLine
  cases t.mark? with
  | none => exact h
  | some loc =>
    have hnot : (m.linePragmas && !loc.isUnknown) = !(!m.linePragmas || loc.isUnknown) := by
      rw [Bool.not_or, Bool.not_not]
    rw [Option.elim_some, Option.any_some, hnot]
    cases !m.linePragmas || loc.isUnknown with
    | true => exact h
    | false =>
      by_cases hvertical : m.isVertical
      · obtain ⟨w, hw, hsign⟩ := hpragma (loc.line.toNat - 1) loc.file
        simp only [hvertical, hw]
        exact ⟨w, (Doc.Begins.text w).above d, hsign⟩
      · obtain ⟨w, hw, hsign⟩ := hpragma loc.line.toNat loc.file
        simp only [hvertical, hw]
        exact ⟨w, (Doc.Begins.text w).beside true d, hsign⟩

/-- Before a tree that is set apart there is nothing but a gap. -/
theorem firstSign_introduce {sign : Option Char} {d : Doc} (h : d.OpensWith sign) {t : Node}
    (hfull : (t.introduce m d).Full) :
    (t.introduce m d).beads ≠ [] ∧
      (t.introduce m d).firstSign =
        if t.isSpaced && m.spaces || t.isMarked m then none else sign := by
  have hmarked := opensWith_marked (m := m) h t
  unfold introduce Mode.blankLine at hfull ⊢
  unfold Mode.spaces
  generalize (t.mark?.elim d fun loc => m.markLine loc d) = marked at hmarked hfull
  by_cases hblank : t.isSpaced = true ∧ (m.spacing && m.layout != .none) = true
  · have hne : marked.isEmpty = false := by
      obtain ⟨w, hbegins, -⟩ := hmarked
      exact hbegins.isEmpty
    have hbeads : ((text "").above marked).beads = none :: marked.beads := by
      rw [beads_above, beads_appendSpace, after, hne]
      simp [beads]
    simp [hblank.1, hblank.2, firstSign, opening, hbeads]
  · have hplain : (t.isSpaced && (m.spacing && m.layout != .none)) = false := by
      simpa using hblank
    have hdoc :
        (if t.isSpaced then if (m.spacing && m.layout != .none) = true then
        (text "").above marked else marked
        else marked) = marked := by
      split_ifs with hspaced hmode
      · exact absurd ⟨hspaced, hmode⟩ hblank
      · rfl
      · rfl
    rw [hdoc] at hfull ⊢
    rw [hplain, Bool.false_or]
    exact ⟨hmarked.beads_ne_nil hfull, hmarked.firstSign_eq hfull⟩

theorem opensWith_clause {c : Match} (hc : (Node.clause c).WellFormed)
    (hs : (Node.clause c).Spelled a) :
    ∃ sign, ((Node.clause c).pretty m 0).value.OpensWith sign ∧ sign ≠ some '-' := by
  suffices h : ∃ sign, c.sketch.OpensWith m sign ∧ sign ≠ some '-' by
    obtain ⟨sign, hopens, hsign⟩ := h
    rw [value_pretty m (wellFormed_iff.mp hc).1 0]
    refine ⟨_, opensWith_marked hopens.doc (.clause c), ?_⟩
    split_ifs
    · simp
    · exact hsign
  obtain ⟨loc, name, pats, rhs, wheres⟩ := c
  obtain ⟨hspelled, -⟩ := hs.child (c := .name name) (by simp [children, Match.children])
  have hname := name.opensWith_sketch hspelled (m := m)
  rcases pats with _ | ⟨x, _ | ⟨y, rest⟩⟩
  · exact ⟨none, (hname.row .fillOnside _).upon _, by simp⟩
  · exact ⟨none, (hname.row .fillOnside _).upon _, by simp⟩
  · by_cases hn : name.isSymbolic
    · have hmem : Node.pat x ∈ (Node.clause ⟨loc, name, x :: y :: rest, rhs, wheres⟩).children := by
        simp [children, Match.children]
      have hpat := opensWith_tree (opensWith_pat (hc.child hmem) (hs.child hmem) (m := m) 2)
      simp only [Match.sketch, List.map_cons, clauseHeadSketches, hn, if_true]
      cases rest with
      | nil => exact ⟨_, (hpat.row .fillOnside _).upon _, Pat.sign_ne_minus x (by decide)⟩
      | cons => exact ⟨none, ((opensWith_parens _).row .fillOnside _).upon _, by simp⟩
    · simp only [Match.sketch, List.map_cons, clauseHeadSketches, hn]
      exact ⟨none, (hname.row .fillOnside _).upon _, by simp⟩

theorem opensWith_decl {d : Decl} (hd : (Node.decl d).WellFormed) (hs : (Node.decl d).Spelled a) :
    ∃ sign, d.sketch.OpensWith m sign ∧ (sign = some '-' ↔ d.negates = true) := by
  have hlack := (wellFormed_iff.mp hd).1
  cases d with
  | patBind loc pat rhs wheres =>
    have hmem : Node.pat pat ∈ (Node.decl (.patBind loc pat rhs wheres)).children := by
      simp [children, Decl.children]
    have hpat := opensWith_tree (opensWith_pat (hd.child hmem) (hs.child hmem) (m := m) 0)
    exact ⟨_, (hpat.row .fillOnside _).upon _, by simp [Decl.negates]⟩
  | funBind clauses =>
    cases clauses with
    | nil => simp at hlack
    | cons c cs =>
      have hmem : Node.clause c ∈ (Node.decl (.funBind (c :: cs))).children := by
        simp [children, Decl.children]
      obtain ⟨sign, hopens, hsign⟩ := opensWith_clause (hd.child hmem) (hs.child hmem) (m := m)
      exact ⟨sign, ⟨.tree (.clause c) 0, rfl, hopens⟩, by simp [hsign, Decl.negates]⟩
  | typeSig loc names ty =>
    cases names with
    | nil => simp at hlack
    | cons name names =>
      obtain ⟨hname, -⟩ := hs.child (c := .name name) (by simp [children, Decl.children])
      exact ⟨none, (name.opensWith_sketch hname).punctuate _ .sepFirst _, by simp [Decl.negates]⟩
  | infixDecl loc assoc prec ops =>
    have hassoc : assoc.sketch.OpensWith m none := by
      cases assoc <;> exact opensWith_word (by decide)
    exact ⟨none, hassoc.row .sepFirst _, by simp [Decl.negates]⟩
  | typeDecl | foreignImport | foreignExport =>
    exact ⟨none, (opensWith_word (by decide)).row .sepFirst _, by simp [Decl.negates]⟩
  | dataDecl =>
    exact ⟨none, ((opensWith_word (w := "data") (by decide)).row .sepFirst _).appendSpace _,
      by simp [Decl.negates]⟩
  | newtypeDecl =>
    exact ⟨none,
      (((opensWith_word (w := "newtype") (by decide)).row .sepFirst _).appendSpace _).appendSpace _,
      by simp [Decl.negates]⟩
  | classDecl =>
    exact ⟨none, ((opensWith_word (w := "class") (by decide)).row .sepFirst _).upon _,
      by simp [Decl.negates]⟩
  | instDecl =>
    exact ⟨none, ((opensWith_word (w := "instance") (by decide)).row .sepFirst _).upon _,
      by simp [Decl.negates]⟩
  | defaultDecl =>
    exact ⟨none, (opensWith_word (w := "default") (by decide)).appendSpace _,
      by simp [Decl.negates]⟩

/-- Whether the printed module starts a comment: the brace before its members meets a minus sign. -/
def opensComment (m : Mode) : Node → Bool
  | .module mod =>
    m.layout ≠ .offside && mod.imports.isEmpty &&
      mod.decls.head?.any fun d => d.negates && !(Node.decl d).isMarked m
  | _ => false

/-- A printed tree starts with the sign of its plan, unless a blank line or a pragma comes first. -/
theorem WellFormed.firstSign_doc {t : Node} (ht : t.WellFormed) {sign : Option Char}
    (hopens : (t.sketch 0).OpensWith m sign) :
    (t.doc m).beads ≠ [] ∧
      (t.doc m).firstSign = if t.isSpaced && m.spaces || t.isMarked m then none else sign := by
  have hvalue := value_pretty m (wellFormed_iff.mp ht).1 0
  have hfull := ht.full m 0
  rw [hvalue] at hfull
  rw [Node.doc, hvalue]
  exact firstSign_introduce hopens.doc hfull

/-- The first member of a module starts with a minus sign if it binds a negative pattern. -/
theorem firstSign_decl {d : Decl} (hd : (Node.decl d).WellFormed) (hs : (Node.decl d).Spelled a) :
    ((Node.decl d).doc m).beads ≠ [] ∧
      (((Node.decl d).doc m).firstSign = some '-' ↔
        (d.negates && !(Node.decl d).isMarked m) = true) := by
  obtain ⟨sign, hopens, hsign⟩ := opensWith_decl hd hs (m := m)
  obtain ⟨hne, hfirst⟩ := hd.firstSign_doc hopens
  refine ⟨hne, ?_⟩
  have hnegates : d.negates = true → (Node.decl d).isSpaced = false := by
    cases d <;> simp [Decl.negates, isSpaced]
  cases hneg : d.negates <;> cases hspaced : (Node.decl d).isSpaced <;>
    cases hmarked : (Node.decl d).isMarked m <;>
    simp_all

theorem firstSign_importDecl {i : ImportDecl} (hi : (Node.importDecl i).WellFormed) :
    ((Node.importDecl i).doc m).beads ≠ [] ∧ ((Node.importDecl i).doc m).firstSign = none := by
  have hopens : i.sketch.OpensWith m none :=
    (opensWith_word (w := "import") (by decide)).row .sepFirst _
  obtain ⟨hne, hfirst⟩ := hi.firstSign_doc hopens
  exact ⟨hne, by simpa using hfirst⟩

theorem collides_module {mod : Module} (hmod : (Node.module mod).WellFormed)
    (hs : (Node.module mod).Spelled a) (level : Nat) :
    ((Node.module mod).sketch level).Collides a m ↔ (Node.module mod).opensComment m = true := by
  obtain ⟨loc, name, exports, imports, decls⟩ := mod
  have hheader : ¬ ∃ s ∈ Module.headerSketches ⟨loc, name, exports, imports, decls⟩,
      s.Collides a m := by
    cases exports <;> simp [Module.headerSketches]
  rw [Node.sketch, collides_topLevel, lbrace_meets_iff, or_iff_right hheader]
  cases imports with
  | cons i imports =>
    obtain ⟨hne, hfirst⟩ :=
      firstSign_importDecl (m := m) (hmod.child (c := .importDecl i) (by simp [children]))
    simp only [List.map_cons, List.cons_append, firstSign_hsep_punctuate hne, hfirst]
    simp [opensComment]
  | nil =>
    cases decls with
    | nil => simp [opensComment, Doc.punctuate, hsep, firstSign, opening, beads]
    | cons d decls =>
      have hmem : Node.decl d ∈ (Node.module ⟨loc, name, exports, [], d :: decls⟩).children := by
        simp [children]
      obtain ⟨hne, hfirst⟩ := firstSign_decl (m := m) (hmod.child hmem) (hs.child hmem)
      simp only [List.map_nil, List.nil_append, List.map_cons, firstSign_hsep_punctuate hne, hfirst]
      simp [opensComment]

/-! ### All trees -/

/-- The patterns and their fields. -/
def isPattern : Node → Bool
  | .pat _ | .patField _ => true
  | _ => false

theorem not_isPattern_child {t : Node} (hcode : t.isCode = false) (hpattern : t.isPattern = false) :
    ∀ c ∈ t.children, c.isPattern = false := by
  cases t with
  | exportSpec node => cases node <;> simp [children, ExportSpec.children, isPattern]
  | importSpec node => cases node <;> simp [children, ImportSpec.children, isPattern]
  | conDecl node => cases node <;> simp [children, ConDecl.children, isPattern]
  | bangType node => cases node <;> simp [children, BangType.children, isPattern]
  | ty node => cases node <;> simp [children, Ty.children, isPattern]
  | _ => grind [children, QName.children, isCode, isPattern]

/-- Signs clash inside code and patterns only. -/
theorem isCode_or_isPattern_of_clash {s t : Node} (h : s.Inside t) (hs : s.clashes = true) :
    t.isCode = true ∨ t.isPattern = true := by
  induction h with
  | here =>
    cases s with
    | pat => exact .inr rfl
    | expr => exact .inl rfl
    | _ => simp [clashes] at hs
  | @child t c hc _ ih =>
    by_contra ht
    simp only [not_or, Bool.not_eq_true] at ht
    rw [not_isCode_child ht.1 c hc, not_isPattern_child ht.1 ht.2 c hc] at ih
    simp at ih

theorem shows_clauseHead {name : Name} {ss : List Sketch} {c : Node} (h : ∃ s ∈ ss, s.Shows c) :
    ∃ s ∈ clauseHeadSketches name ss, s.Shows c := by
  rcases ss with _ | ⟨x, _ | ⟨y, _ | ⟨z, rest⟩⟩⟩
  · simp at h
  · simp only [clauseHeadSketches]
    grind
  · by_cases hn : name.isSymbolic <;> simp only [clauseHeadSketches, hn] <;> grind
  · by_cases hn : name.isSymbolic
    · simp [clauseHeadSketches, hn] at h ⊢
      grind
    · simp only [clauseHeadSketches, hn]
      grind

/-- The patterns directly below a tree are shown by its plan. -/
theorem shows_of_isPattern {t c : Node} (hc : c ∈ t.children) (hpattern : c.isPattern = true)
    (level : Nat) : (t.sketch level).Shows c := by
  cases t with
  | pat node =>
    cases node with
    | asPat name pat =>
      simp [children, Pat.children, Node.sketch, Sketch.Shows, Pat.atoms_asPat] at hc ⊢
      grind [isPattern]
    | _ =>
      simp [children, Pat.children, Node.sketch, Pat.sketch] at hc ⊢ <;> grind [isPattern]
  | clause node =>
    obtain ⟨loc, name, pats, rhs, wheres⟩ := node
    obtain ⟨p, hp, rfl⟩ : ∃ p ∈ pats, .pat p = c := by
      simp [children, Match.children] at hc
      grind [isPattern]
    obtain ⟨s, hs, hshows⟩ :
        ∃ s ∈ clauseHeadSketches name (pats.map fun p => .tree (.pat p) 2), s.Shows (.pat p) :=
      shows_clauseHead (by simpa using hp)
    simp only [Node.sketch, Match.sketch, shows_upon, shows_row]
    exact .inl ⟨s, List.mem_append_left _ hs, hshows⟩
  | decl node =>
    cases node <;> simp [children, Decl.children, Node.sketch, Decl.sketch] at hc ⊢ <;>
      grind [isPattern]
  | expr node =>
    cases node <;>
      simp [children, Expr.children, Node.sketch, Expr.sketch, or_and_right, exists_or] at hc ⊢ <;>
      grind [isPattern]
  | stmt node =>
    cases node <;> simp [children, Stmt.children, Node.sketch, Stmt.sketch] at hc ⊢ <;>
      grind [isPattern]
  | patField node | alt node =>
    cases node
    simp [children, PatField.children, Alt.children, Node.sketch, PatField.sketch,
      Alt.sketch] at hc ⊢
    grind [isPattern]
  | rhs node => cases node <;> simp [children, Rhs.children] at hc <;> grind [isPattern]
  | guardedAlts node =>
    cases node <;> simp [children, GuardedAlts.children] at hc <;> grind [isPattern]
  | fieldUpdate node | guardedRhs node | guardedAlt node =>
    cases node
    simp [children, FieldUpdate.children, GuardedRhs.children, GuardedAlt.children] at hc
    grind [isPattern]
  | module =>
    simp [children] at hc
    grind [isPattern]
  | _ => simp [not_isPattern_child rfl rfl c hc] at hpattern

theorem exists_clash_iff {t : Node} :
    (∃ n : Node, n.Inside t ∧ n.clashes = true) ↔
      t.clashes = true ∨ ∃ c ∈ t.children, ∃ n : Node, n.Inside c ∧ n.clashes = true := by
  constructor
  · rintro ⟨n, hinside, hn⟩
    cases hinside with
    | here => exact .inl hn
    | child hc hinside => exact .inr ⟨_, hc, n, hinside, hn⟩
  · rintro (ht | ⟨c, hc, n, hinside, hn⟩)
    · exact ⟨t, .here, ht⟩
    · exact ⟨n, .child hc hinside, hn⟩

theorem fused_introduce {R : String → String → Prop} (t : Node) (d : Doc) :
    (t.introduce m d).Fused R ↔ d.Fused R := by
  have hmarked : (t.mark?.elim d fun loc => m.markLine loc d).Fused R ↔ d.Fused R := by
    cases t.mark? with
    | none => rfl
    | some loc =>
      simp only [Option.elim_some, Mode.markLine, Mode.linePragma]
      split_ifs <;> simp
  unfold introduce Mode.blankLine
  split_ifs <;> simp [hmarked]

/-- Inside the trees and blocks of a plan texts fuse exactly if signs clash below the tree. -/
theorem fused_atoms_iff {t : Node} (level : Nat)
    (ih : ∀ c ∈ t.children, ∀ level,
      (c.pretty m level).value.Fused a.Fuses ↔ ∃ n : Node, n.Inside c ∧ n.clashes = true) :
    (∃ x ∈ (t.sketch level).atoms, x.Fused a m) ↔
      ∃ c ∈ t.children, ∃ n : Node, n.Inside c ∧ n.clashes = true := by
  constructor
  · rintro ⟨x, hx, hfused⟩
    have hbelongs := t.worded_true.belongs phrasing_true level x hx
    cases x with
    | word s => exact hfused.elim
    | tree c l => exact ⟨c, hbelongs, (ih c hbelongs l).mp hfused⟩
    | block items =>
      obtain ⟨c, hc, hfused⟩ := hfused
      rw [hbelongs.1] at hc
      exact ⟨c, mem_children_of_items hc, (ih c (mem_children_of_items hc) 0).mp hfused⟩
  · rintro ⟨c, hc, n, hinside, hn⟩
    have hfused := fun l => (ih c hc l).mpr ⟨n, hinside, hn⟩
    rcases isCode_or_isPattern_of_clash hinside hn with hcode | hpattern
    · rcases shows_or_mem_block hc hcode level with ⟨l, hshows⟩ | ⟨hblock, hitem⟩
      · exact ⟨_, hshows, hfused l⟩
      · exact ⟨_, hblock, c, hitem, hfused 0⟩
    · obtain ⟨l, hshows⟩ := shows_of_isPattern hc hpattern level
      exact ⟨_, hshows, hfused l⟩

theorem WellFormed.chunks_eq {t : Node} (ht : t.WellFormed) (style : Style) (m : Mode)
    (level : Nat) : t.chunks style m level = .ok ((t.pretty m level).value.chunks style) := by
  rw [Node.chunks, (ht.toDoc_eq m level).2]
  rfl

/-- The texts of a printed tree fuse exactly if signs clash inside, or a comment starts. -/
theorem WellFormed.fused_iff {t : Node} (ht : t.WellFormed) (hs : t.Spelled a) (m : Mode)
    (level : Nat) :
    (t.pretty m level).value.Fused a.Fuses ↔
      (∃ n : Node, n.Inside t ∧ n.clashes = true) ∨ t.opensComment m = true := by
  induction t using Node.inductOn generalizing level with
  | step t ih =>
    have hbelow : ∀ c ∈ t.children, ∀ level,
        (c.pretty m level).value.Fused a.Fuses ↔ ∃ n : Node, n.Inside c ∧ n.clashes = true := by
      intro c hc l
      have hmodule : c.opensComment m = false := by
        have hchild := isModule_child hc
        cases c with
        | module => simp at hchild
        | _ => rfl
      simpa [hmodule] using ih c hc (ht.child hc) (hs.child hc) l
    have hcollides : (t.sketch level).Collides a m ↔
        t.clashes = true ∨ t.opensComment m = true := by
      cases hmodule : t.isModule with
      | true =>
        cases t with
        | module mod => simpa [clashes] using collides_module ht hs level
        | _ => simp at hmodule
      | false =>
        have hcomment : t.opensComment m = false := by
          cases t with
          | module => simp at hmodule
          | _ => rfl
        simpa [hcomment] using collides_iff ht hs hmodule level
    rw [value_pretty m (wellFormed_iff.mp ht).1 level, fused_introduce,
      Sketch.fused_doc_iff, hcollides, fused_atoms_iff level hbelow, exists_clash_iff]
    grind

end Node

/-- Two texts of a printed tree that have neither spaces nor a line break between them meet in
operator signs of different words, or in a brace and a minus sign, exactly if a sign inside the tree
is printed right before an operand that starts with a sign, or the first declaration of a module
with braces binds a negative pattern. -/
theorem texts_fuse_exactly_at_clashing_signs (a : Alphabet) {t : Node} (ht : t.WellFormed)
    (hs : t.Spelled a) (style : Style) (m : Mode) (level : Nat) :
    ∃ cs, t.chunks style m level = .ok cs ∧
      ((∃ s w, [.text s, .text w] <:+: cs ∧ a.Fuses s w) ↔
        (∃ n : Node, n.Inside t ∧ n.clashes = true) ∨ t.opensComment m = true) := by
  refine ⟨_, ht.chunks_eq style m level, ?_⟩
  rw [← (ht.full m level).fused_iff style, ht.fused_iff hs m level]

end

theorem isModule_basic : Alphabet.basic.IsModule ⟨"M"⟩ := ⟨["M".toList], by simp, by decide, rfl⟩

theorem isName_basic {s : String} (hs : Alphabet.basic.IsIdent .small s.toList) :
    Alphabet.basic.IsName (.ident s) :=
  hs.isName (.inl rfl)

theorem named_lazy_pattern_is_set_apart :
    let t := Node.module
      { name := ⟨"M"⟩
        decls :=
          [.simpleFun "f" [.asPat (.ident "x") (.irrefutable (.var (.ident "y")))]
            (.neg (.ofVar "y"))] }
    t.WellFormed ∧ t.Spelled .basic ∧ (∀ n : Node, n.Inside t → n.clashes = false) ∧
      ∀ style m, ∃ cs, t.chunks style m 0 = .ok cs ∧
        ¬ ∃ s w, [.text s, .text w] <:+: cs ∧ Alphabet.basic.Fuses s w := by
  intro t
  have ht : t.WellFormed := by
    simp [t, Node.wellFormed_iff, Node.children, Decl.simpleFun, Match.ofRhs, Decl.children,
      Match.children, Rhs.children, Expr.children, Pat.children, Expr.ofVar, QName.ofIdent,
      QName.unqualified, QName.children]
  have hs : t.Spelled .basic := by
    simp +decide [t, Node.Spelled, Node.everywhere_children_iff, Node.IsSpelled, isName_basic,
      isModule_basic, Node.children, Decl.simpleFun, Match.ofRhs, Decl.children, Match.children,
      Rhs.children, Expr.children, Pat.children, Expr.ofVar, QName.ofIdent, QName.unqualified,
      QName.children]
  have hclashes : ∀ n : Node, n.Inside t → n.clashes = false := by
    rw [← Node.everywhere_iff]
    simp [t, Node.everywhere_children_iff, Node.clashes, Pat.clashes, Expr.clashes, Pat.sign,
      Expr.sign, Node.children, Decl.simpleFun, Match.ofRhs, Decl.children, Match.children,
      Rhs.children, Expr.children, Pat.children, Expr.ofVar, QName.ofIdent, QName.unqualified,
      QName.children]
  refine ⟨ht, hs, hclashes, fun style m => ?_⟩
  obtain ⟨cs, hcs, hiff⟩ := texts_fuse_exactly_at_clashing_signs .basic ht hs style m 0
  refine ⟨cs, hcs, fun hfused => ?_⟩
  rcases hiff.mp hfused with ⟨n, hinside, hn⟩ | hcomment
  · simp [hclashes n hinside] at hn
  · simp [t, Node.opensComment, Decl.simpleFun, Decl.negates] at hcomment

/-- A tilde before an irrefutable pattern runs together with its tilde, and the brace before a
negative pattern with its minus sign. -/
theorem doubled_tilde_and_opened_comment :
    let lazy := Node.module
      { name := ⟨"M"⟩
        decls := [.simpleFun "f" [.irrefutable (.irrefutable (.var (.ident "x")))] (.ofVar "x")] }
    let negative := Node.module
      { name := ⟨"M"⟩
        decls := [.patBind .unknown (.lit (.int ⟨-1, by decide⟩)) (.unguarded (.ofVar "x")) []] }
    let braced : Mode := { layout := .semicolon }
    (lazy.WellFormed ∧ lazy.Spelled .basic ∧ lazy.print {} {} 0 = .ok "module M where\nf ~~x = x" ∧
      ∃ cs, lazy.chunks {} {} 0 = .ok cs ∧ [.text "~", .text "~"] <:+: cs ∧
      Alphabet.basic.Fuses "~" "~") ∧
    (negative.WellFormed ∧ negative.Spelled .basic ∧
      negative.print {} braced 0 = .ok "module M where\n\x7b-1 = x\x7d" ∧
      ∃ cs, negative.chunks {} braced 0 = .ok cs ∧ [.text "\x7b", .text "-1"] <:+: cs ∧
        Alphabet.basic.Fuses "\x7b" "-1") := by
  intro lazy negative braced
  have htilde : Alphabet.basic.Fuses "~" "~" := (fuses_sign_iff (by decide) _).mpr (by decide)
  have hcomment : Alphabet.basic.Fuses "\x7b" "-1" := (fuses_lbrace_iff _).mpr (by decide)
  have hlazy : lazy.WellFormed := by
    simp [lazy, Node.wellFormed_iff, Node.children, Decl.simpleFun, Match.ofRhs, Decl.children,
      Match.children, Rhs.children, Expr.children, Pat.children, Expr.ofVar, QName.ofIdent,
      QName.unqualified, QName.children]
  have hnegative : negative.WellFormed := by
    simp [negative, Node.wellFormed_iff, Node.children, Decl.children, Rhs.children, Expr.children,
      Pat.children, Expr.ofVar, QName.ofIdent, QName.unqualified, QName.children]
  refine ⟨⟨hlazy, ?_, ?_, _, hlazy.chunks_eq {} {} 0, ?_, htilde⟩,
    hnegative, ?_, ?_, _, hnegative.chunks_eq {} braced 0, ?_, hcomment⟩
  · simp +decide [lazy, Node.Spelled, Node.everywhere_children_iff, Node.IsSpelled, isName_basic,
      isModule_basic, Node.children, Decl.simpleFun, Match.ofRhs, Decl.children, Match.children,
      Rhs.children, Expr.children, Pat.children, Expr.ofVar, QName.ofIdent, QName.unqualified,
      QName.children]
  · rw [hlazy.print_eq, Doc.render, chunks_eq_lay]
    decide
  · rw [chunks_eq_lay]
    decide
  · simp +decide [negative, Node.Spelled, Node.everywhere_children_iff, Node.IsSpelled,
      isName_basic, isModule_basic, Node.children, Decl.children, Rhs.children, Expr.children,
      Pat.children, Expr.ofVar, QName.ofIdent, QName.unqualified, QName.children]
  · rw [hnegative.print_eq, Doc.render, chunks_eq_lay]
    decide
  · rw [chunks_eq_lay]
    decide

end Syntax

end Offside
