import Offside.Proofs.Grammar

/-!
# Printed patterns are unambiguous

The words of a printed pattern are atoms, with at most one operator among them. A word that ends
with an at-sign goes on in the next word, and a constructor takes the atoms that follow it. So a
pattern is read back from its text, but for parentheses around patterns.
-/
namespace Offside

open Reading Doc TokenTree

namespace Syntax

/-- A pattern as it is written, without the parentheses around patterns. -/
inductive PlainPat where
  | var (name : Name)
  | constant (unboxed : Bool) (c : Constant)
  | neg (pat : PlainPat)
  | infixApp (left : PlainPat) (op : QName) (right : PlainPat)
  | app (con : QName) (args : List PlainPat)
  | tuple (elems : List PlainPat)
  | list (elems : List PlainPat)
  | record (con : QName) (fields : List (QName × PlainPat))
  | asPat (name : Name) (pat : PlainPat)
  | wildcard
  | irrefutable (pat : PlainPat)
  /-- A literal that is no whole number, as it is. -/
  | fractional (lit : Literal)

namespace PlainPat

/-- A negative number is the negation of a number. -/
def ofInt (unboxed : Bool) (n : Int) : PlainPat :=
  if n < 0 then .neg (.constant unboxed (.number n.natAbs)) else
    .constant unboxed (.number n.natAbs)

def ofLiteral : Literal → PlainPat
  | .char c => .constant false (.char c)
  | .string s => .constant false (.string s)
  | .int n => .ofInt false n.val
  | .charPrim c => .constant true (.char c)
  | .stringPrim s => .constant true (.string s)
  | .intPrim n => .ofInt true n.val
  | l => .fractional l

/-- The empty list is a constructor. -/
def ofList : List PlainPat → PlainPat
  | [] => .app (.unqualified (.special .list)) []
  | ps => .list ps

end PlainPat

mutual

/-- The normal form of a pattern. -/
def Pat.normal : Pat → PlainPat
  | .var name => .var name
  | .lit lit => .ofLiteral lit
  | .neg pat => .neg pat.normal
  | .infixApp left op right => .infixApp left.normal (plain op) right.normal
  | .app con args => .app (plain con) (Pat.normals args)
  | .tuple elems => .tuple (Pat.normals elems)
  | .list elems => .ofList (Pat.normals elems)
  | .paren pat => pat.normal
  | .record con fields => .record (plain con) (PatField.normals fields)
  | .asPat name pat => .asPat name pat.normal
  | .wildcard => .wildcard
  | .irrefutable pat => .irrefutable pat.normal

def PatField.normal : PatField → QName × PlainPat
  | .mk field pat => (field, pat.normal)

def Pat.normals : List Pat → List PlainPat
  | [] => []
  | p :: ps => p.normal :: Pat.normals ps

def PatField.normals : List PatField → List (QName × PlainPat)
  | [] => []
  | f :: fs => f.normal :: PatField.normals fs

end

theorem Pat.normals_eq (ps : List Pat) : Pat.normals ps = ps.map Pat.normal := by
  induction ps with
  | nil => rw [Pat.normals]; rfl
  | cons p ps ih => rw [Pat.normals, ih, List.map_cons]

theorem PatField.normals_eq (fs : List PatField) :
    PatField.normals fs = fs.map PatField.normal := by
  induction fs with
  | nil => rw [PatField.normals]; rfl
  | cons f fs ih => rw [PatField.normals, ih, List.map_cons]

def Literal.isFractional : Literal → Bool
  | .frac _ | .floatPrim _ | .doublePrim _ => true
  | _ => false

/-- A pattern without fractional literals, with names as they are written. -/
inductive Pat.Lexical (a : Alphabet) : Pat → Prop where
  | var {name : Name} (hname : a.IsVar name) : Lexical a (.var name)
  | lit {lit : Literal} (hlit : lit.isFractional = false) : Lexical a (.lit lit)
  | neg {pat : Pat} (hpat : Lexical a pat) : Lexical a (.neg pat)
  | infixApp {left right : Pat} {op : QName} (hleft : Lexical a left) (hname : a.IsCon op.name)
      (hop : a.IsQualified op)
      (hright : Lexical a right) : Lexical a (.infixApp left op right)
  | app {con : QName} {args : List Pat} (hname : a.IsCon con.name) (hcon : a.IsQualified con)
      (hargs : ∀ p ∈ args, Lexical a p) : Lexical a (.app con args)
  | tuple {elems : List Pat} (helems : ∀ p ∈ elems, Lexical a p) : Lexical a (.tuple elems)
  | list {elems : List Pat} (helems : ∀ p ∈ elems, Lexical a p) : Lexical a (.list elems)
  | paren {pat : Pat} (hpat : Lexical a pat) : Lexical a (.paren pat)
  | record {con : QName} {fields : List PatField} (hname : a.IsCon con.name)
      (hcon : a.IsQualified con)
      (hfields : ∀ field pat, .mk field pat ∈ fields → a.IsVar field.name ∧ a.IsQualified field)
      (hpats : ∀ field pat, .mk field pat ∈ fields → Lexical a pat) : Lexical a (.record con fields)
  | asPat {name : Name} {pat : Pat} (hname : a.IsVar name) (hpat : Lexical a pat) :
      Lexical a (.asPat name pat)
  | wildcard : Lexical a .wildcard
  | irrefutable {pat : Pat} (hpat : Lexical a pat) : Lexical a (.irrefutable pat)

end Syntax

open Syntax

namespace Reading.PatReader

/-- What a bracket in a pattern can hold. -/
inductive Part where
  | pat (p : PlainPat)
  | name (q : QName)
  | fields (fs : List (QName × PlainPat))

abbrev Word := List (Item Part)

/-! ### Joining words -/

/-- A word that goes on in the next one. -/
def isOpen (w : Word) : Bool := w.getLast?.any (Item.is '@')

def glue : List Word → List Word
  | [] => []
  | w :: ws =>
    if isOpen w then
      match glue ws with
      | [] => [w]
      | v :: vs => (w ++ v) :: vs
    else w :: glue ws

theorem glue_ne_nil {ws : List Word} (hws : ws ≠ []) : glue ws ≠ [] := by
  obtain ⟨w, ws, rfl⟩ := List.exists_cons_of_ne_nil hws
  unfold glue
  split_ifs
  · split <;> simp
  · simp

/-- The last word of a row is complete. -/
def Complete (ws : List Word) : Prop := ∀ w ∈ ws.getLast?, isOpen w = false

theorem complete_singleton {w : Word} : Complete [w] ↔ isOpen w = false := by
  simp [Complete]

theorem glue_append {ws : List Word} (hws : Complete ws) (vs : List Word) :
    glue (ws ++ vs) = glue ws ++ glue vs := by
  induction ws with
  | nil => rfl
  | cons w ws ih =>
    cases ws with
    | nil =>
      have hw : isOpen w = false := hws w rfl
      simp [glue, hw]
    | cons u us =>
      have hrest : Complete (u :: us) := by rwa [Complete, List.getLast?_cons_cons] at hws
      obtain ⟨x, xs, hglue⟩ := List.exists_cons_of_ne_nil (glue_ne_nil (List.cons_ne_nil u us))
      rw [List.cons_append, glue, glue, ih hrest, hglue]
      split_ifs <;> rfl

/-- Something before the first word stands before what it is joined to. -/
theorem glue_cons_append {w : Word} {ws us : List Word} {u : Word} (hw : w ≠ [])
    (h : glue (w :: ws) = u :: us) (v : Word) : glue ((v ++ w) :: ws) = (v ++ u) :: us := by
  have hopen : isOpen (v ++ w) = isOpen w := by
    rw [isOpen, List.getLast?_append_of_ne_nil _ hw, isOpen]
  rw [glue] at h ⊢
  rw [hopen]
  cases hcase : isOpen w with
  | false =>
    rw [hcase, if_neg (by simp)] at h
    obtain ⟨rfl, rfl⟩ := List.cons.inj h
    simp
  | true =>
    rw [hcase, if_pos rfl] at h
    rw [if_pos rfl]
    cases hglue : glue ws with
    | nil =>
      simp only [hglue, List.cons.injEq] at h
      obtain ⟨rfl, rfl⟩ := h
      rfl
    | cons x xs =>
      simp only [hglue, List.cons.injEq] at h
      obtain ⟨rfl, rfl⟩ := h
      simp

/-! ### Reading words -/

section

variable (a : Alphabet)

/-- A name by itself is a variable or a constructor without arguments. -/
def ofName (q : QName) : PlainPat := if a.isCon q.name then .app q [] else .var q.name

def toPat : Part → PlainPat
  | .pat p => p
  | .name q => ofName a q
  | .fields _ => .wildcard

def toName : Part → QName
  | .name q => q
  | _ => .ofIdent ""

def nameIn (w : Word) : QName := toName (nameOf a .name w)

def isNumber (w : Word) : Bool := w.head?.any (Item.test Char.isDigit)

/-- A name, a record or something in brackets. -/
def solid (w : Word) : PlainPat :=
  match w.getLast? with
  | some (.whole (.fields fs)) => .record (nameIn a w.dropLast) fs
  | _ => toPat a (nameOf a .name w)

def core (w : Word) : PlainPat :=
  if w.head?.any (Item.is '_') then .wildcard
  else if isNumber w then .constant false
    (.number (Nat.ofDigitChars 10 ((characters? w).getD []) 0))
  else solid a w

def unbox : PlainPat → PlainPat
  | .constant _ c => .constant true c
  | p => p

/-- An atom without prefixes. A hash sign at the end marks an unboxed literal. -/
def bare (w : Word) : PlainPat :=
  if w.getLast?.any (Item.is '#') then unbox (core a w.dropLast) else core a w

def tildes (read : Word → PlainPat) : Word → PlainPat
  | [] => read []
  | i :: w => if i.is '~' then .irrefutable (tildes read w) else read (i :: w)

/-- The parts of an atom between the at-signs. -/
def atomParts : List Word → PlainPat
  | [] => .wildcard
  | [w] => tildes (bare a) w
  | w :: ws => tildes (fun v => .asPat (nameIn a v).name (atomParts ws)) w

def atom (w : Word) : PlainPat := atomParts a (w.splitOnP (Item.is '@'))

variable {a}

theorem core_eq_solid {w : Word}
    (hw : ∀ i ∈ w.head?, i.is '_' = false ∧ i.test Char.isDigit = false) :
    core a w = solid a w := by
  cases w with
  | nil => rfl
  | cons i w =>
    obtain ⟨hblank, hdigit⟩ := hw i rfl
    simp [core, isNumber, hblank, hdigit]

theorem bare_eq_core {w : Word} (hw : ∀ i ∈ w.getLast?, i.is '#' = false) :
    bare a w = core a w := by
  rw [bare, if_neg]
  rw [Option.any_eq_true]
  rintro ⟨i, hi, hhash⟩
  rw [hw i hi] at hhash
  contradiction

theorem atom_tilde (w : Word) : atom a (.chr '~' :: w) = .irrefutable (atom a w) := by
  rw [atom, atom, List.splitOnP_cons_eq_if_modifyHead, if_neg (by simp)]
  obtain ⟨v, vs, hsplit⟩ := List.exists_cons_of_ne_nil (List.splitOnP_ne_nil (Item.is '@') w)
  rw [hsplit, List.modifyHead_cons]
  cases vs with
  | nil => rfl
  | cons u us => rfl

theorem tildes_of_head {w : Word} (hw : ∀ i ∈ w.head?, i.is '~' = false) (read : Word → PlainPat) :
    tildes read w = read w := by
  cases w with
  | nil => rfl
  | cons i w => rw [tildes, hw i rfl, if_neg (by simp)]

theorem atom_asPat {v : Word} (hv : ∀ i ∈ v, i.is '@' = false)
    (hhead : ∀ i ∈ v.head?, i.is '~' = false) (w : Word) :
    atom a (v ++ .chr '@' :: w) = .asPat (nameIn a v).name (atom a w) := by
  rw [atom, List.splitOnP_append_cons_of_forall_mem hv _ (by simp)]
  obtain ⟨u, us, hsplit⟩ := List.exists_cons_of_ne_nil (List.splitOnP_ne_nil (Item.is '@') w)
  rw [atom, hsplit, atomParts, tildes_of_head hhead]
  simp

theorem atom_bare {w : Word} (hw : ∀ i ∈ w, i.is '@' = false)
    (hhead : ∀ i ∈ w.head?, i.is '~' = false) : atom a w = bare a w := by
  rw [atom, List.splitOnP_eq_singleton hw, atomParts, tildes_of_head hhead]

end

/-! ### Reading rows of words -/

section

variable (a : Alphabet)

/-- The sign of a constructor between two patterns. -/
def isOperator (w : Word) : Bool := w.any (Item.test fun c => c = ':' || c = '>' || c = '\x60')

def isNegated (w : Word) : Bool := w.head?.any (Item.is '-')

/-- The characters of an operator, or of a module and an operator. -/
def isSymbolic (w : Word) : Bool :=
  w.all (Item.test a.isSymbol) ||
    w.head?.any (Item.test fun c => a.kind c = .large) && w.getLast?.any (Item.test a.isSymbol)

/-- An atom, or a constructor with its arguments. -/
def row (ws : List Word) : PlainPat :=
  match glue ws with
  | [] => .wildcard
  | [w] => atom a w
  | w :: ws => .app (nameIn a w) (ws.map (atom a))

/-- A row with a minus sign before it. -/
def operand : List Word → PlainPat
  | [] => .wildcard
  | w :: ws => if isNegated w then .neg (row a (w.tail :: ws)) else row a (w :: ws)

def pattern (ws : List Word) : PlainPat :=
  match ws.splitOnP isOperator, ws.find? isOperator with
  | [left, right], some op => .infixApp (row a left) (toName (infixOf a .name op)) (row a right)
  | _, _ => operand a ws

/-- A word alone may be the name of an operator. -/
def phrase : List Word → Part
  | [w] => if isSymbolic a w then nameOf a .name w else .pat (pattern a [w])
  | ws => .pat (pattern a ws)

def field : List Word → QName × PlainPat
  | f :: _ :: ws => (nameIn a f, pattern a ws)
  | _ => (.ofIdent "", .wildcard)

def fields (is : List (Item Part)) : Part :=
  .fields (if is.isEmpty then [] else (phrases is).map (field a))

def grammar : Grammar Part where
  quoted q := .pat (.constant false q.constant)
  named := .name
  phrase := phrase a
  tuple ps := .pat (.tuple (ps.map (toPat a)))
  list ps := .pat (.list (ps.map (toPat a)))
  braces := fields a

/-- Words that are read as a pattern anywhere. -/
structure IsPhrase (p : PlainPat) (ws : List Word) : Prop where
  not_symbolic : ∀ w, ws = [w] → isSymbolic a w = false
  pattern_eq : pattern a ws = p

/-- Words that are read as a pattern beside an operator. -/
structure IsRow (p : PlainPat) (ws : List Word) : Prop where
  not_symbolic : ∀ w, ws = [w] → isSymbolic a w = false
  not_operator : ∀ w ∈ ws, isOperator w = false
  not_negated : ∀ w ∈ ws.head?, isNegated w = false
  row_eq : row a ws = p

/-- Words that are read as a pattern wherever one can stand. -/
structure IsAtom (p : PlainPat) (ws : List Word) : Prop where
  not_symbolic : ∀ w, ws = [w] → isSymbolic a w = false
  not_operator : ∀ w ∈ ws, isOperator w = false
  not_negated : ∀ w ∈ ws.head?, isNegated w = false
  complete : Complete ws
  exists_atom : ∃ w, glue ws = [w] ∧ atom a w = p

variable {a}

theorem IsPhrase.phrase_eq {p : PlainPat} {ws : List Word} (h : IsPhrase a p ws) :
    phrase a ws = .pat p := by
  rw [← h.pattern_eq]
  unfold phrase
  split
  · next w => rw [h.not_symbolic w rfl, if_neg (by simp)]
  · rfl

theorem pattern_eq_operand {ws : List Word} (hws : ∀ w ∈ ws, isOperator w = false) :
    pattern a ws = operand a ws := by
  rw [pattern, List.splitOnP_eq_singleton hws]

theorem IsAtom.isRow {p : PlainPat} {ws : List Word} (h : IsAtom a p ws) : IsRow a p ws := by
  obtain ⟨w, hglue, hatom⟩ := h.exists_atom
  exact ⟨h.not_symbolic, h.not_operator, h.not_negated, by rw [row, hglue]; exact hatom⟩

theorem IsRow.isPhrase {p : PlainPat} {ws : List Word} (h : IsRow a p ws) : IsPhrase a p ws := by
  refine ⟨h.not_symbolic, ?_⟩
  rw [pattern_eq_operand h.not_operator, ← h.row_eq]
  cases ws with
  | nil => rfl
  | cons w ws => rw [operand, h.not_negated w rfl, if_neg (by simp)]

theorem isSymbolic_cons {c : Char} (hc : a.kind c ≠ .large) {w : Word}
    (hw : isSymbolic a w = false) : isSymbolic a (.chr c :: w) = false := by
  rw [isSymbolic, Bool.or_eq_false_iff] at hw
  simp [isSymbolic, hw.1, hc]

theorem isSymbolic_of_head {i : Item Part}
    (hi : i.test (fun c => a.isSymbol c || a.kind c = .large) = false) (w : Word) :
    isSymbolic a (i :: w) = false := by
  cases i with
  | whole x => simp [isSymbolic]
  | chr c =>
    rw [Item.test_chr, Bool.or_eq_false_iff] at hi
    simp [isSymbolic, hi]

theorem isSymbolic_of_getLast? {w : Word} {i : Item Part} (hw : w.getLast? = some i)
    (hi : i.test a.isSymbol = false) : isSymbolic a w = false := by
  have hall : w.all (Item.test a.isSymbol) = false := by
    rw [List.all_eq_false]
    exact ⟨i, List.mem_of_mem_getLast? hw, by simp [hi]⟩
  simp [isSymbolic, hall, hw, hi]

theorem IsRow.neg {p : PlainPat} {w : Word} {ws : List Word} (h : IsRow a p (w :: ws)) :
    IsPhrase a (.neg p) ((.chr '-' :: w) :: ws) := by
  have hoperator : ∀ v ∈ (.chr '-' :: w) :: ws, isOperator v = false := by
    simpa [isOperator] using h.not_operator
  constructor
  · intro v hv
    obtain ⟨rfl, rfl⟩ := List.cons.inj hv
    exact isSymbolic_cons (by rw [a.ascii _ (by decide)]; decide) (h.not_symbolic w rfl)
  · rw [pattern_eq_operand hoperator, ← h.row_eq]
    rfl

theorem IsRow.infixApp {p q : PlainPat} {ws vs : List Word} {w : Word} (hp : IsRow a p ws)
    (hne : ws ≠ []) (hw : isOperator w = true) (hq : IsRow a q vs) :
    IsPhrase a (.infixApp p (toName (infixOf a .name w)) q) (ws ++ w :: vs) := by
  constructor
  · intro v hv
    simp [List.append_eq_singleton_iff, hne] at hv
  · have hsplit : (ws ++ w :: vs).splitOnP isOperator = [ws, vs] := by
      rw [List.splitOnP_append_cons_of_forall_mem hp.not_operator _ hw,
        List.splitOnP_eq_singleton hq.not_operator]
    have hfind : (ws ++ w :: vs).find? isOperator = some w := by
      have hnone : ws.find? isOperator = none :=
        List.find?_eq_none.mpr (by simpa using hp.not_operator)
      rw [List.find?_append, hnone, List.find?_cons_of_pos hw, Option.none_or]
    rw [pattern, hsplit, hfind]
    simp only [hp.row_eq, hq.row_eq]

/-! ### Atoms -/

variable (a)

/-- The characters that stand in a word only for an operator or after a name. -/
def signs : List Char := [':', '>', '\x60', '@']

/-- A word without prefixes. -/
structure IsBare (w : Word) : Prop where
  ne_nil : w ≠ []
  no_sign : ∀ i ∈ w, i.test (fun c => c ∈ signs) = false
  head : ∀ i ∈ w.head?, i.is '~' = false ∧ i.is '-' = false
  not_symbolic : isSymbolic a w = false

variable {a}

theorem IsBare.not_operator {w : Word} (hw : IsBare a w) : isOperator w = false := by
  rw [isOperator, List.any_eq_false]
  intro i hi
  cases i with
  | whole x => simp
  | chr c =>
    have hc := hw.no_sign _ hi
    simp only [Item.test_chr, signs, List.mem_cons, List.not_mem_nil, decide_eq_false_iff_not,
      not_or] at hc
    simp [hc]

theorem IsBare.no_at {w : Word} (hw : IsBare a w) : ∀ i ∈ w, i.is '@' = false := by
  intro i hi
  cases i with
  | whole x => rfl
  | chr c =>
    have hc := hw.no_sign _ hi
    simp only [Item.test_chr, signs, List.mem_cons, List.not_mem_nil, decide_eq_false_iff_not,
      not_or] at hc
    simp [hc]

theorem IsBare.not_negated {w : Word} (hw : IsBare a w) (v : Word) :
    isNegated (w ++ v) = false := by
  rw [isNegated, List.head?_append_of_ne_nil _ hw.ne_nil, List.head?_eq_some_head hw.ne_nil]
  exact (hw.head _ (List.head?_eq_some_head hw.ne_nil)).2

theorem IsBare.not_open {w : Word} (hw : IsBare a w) : isOpen w = false := by
  rw [isOpen, List.getLast?_eq_some_getLast hw.ne_nil]
  exact hw.no_at _ (List.getLast_mem _)

theorem IsBare.isAtom {w : Word} (hw : IsBare a w) : IsAtom a (bare a w) [w] := by
  refine ⟨?_, by simpa using hw.not_operator, by simpa using hw.not_negated [],
    complete_singleton.mpr hw.not_open, w, ?_, atom_bare hw.no_at fun i hi => (hw.head i hi).1⟩
  · rintro v ⟨rfl⟩
    exact hw.not_symbolic
  · rw [glue, hw.not_open, if_neg (by simp), glue]

theorem complete_cons_append {v w : Word} (hw : w ≠ []) {ws : List Word} (h : Complete (w :: ws)) :
    Complete ((v ++ w) :: ws) := by
  cases ws with
  | nil =>
    rw [complete_singleton] at h ⊢
    rwa [isOpen, List.getLast?_append_of_ne_nil _ hw]
  | cons u us => rwa [Complete, List.getLast?_cons_cons] at h ⊢

namespace IsAtom

variable {p : PlainPat} {w : Word} {ws : List Word}

theorem irrefutable (h : IsAtom a p (w :: ws)) (hw : w ≠ []) :
    IsAtom a (.irrefutable p) ((.chr '~' :: w) :: ws) := by
  obtain ⟨u, hglue, hatom⟩ := h.exists_atom
  refine ⟨?_, by simpa [isOperator] using h.not_operator, ?_,
    complete_cons_append (v := [.chr '~']) hw h.complete, _,
    glue_cons_append hw hglue [.chr '~'], ?_⟩
  · intro v hv
    obtain ⟨rfl, rfl⟩ := List.cons.inj hv
    exact isSymbolic_cons (by rw [a.ascii _ (by decide)]; decide) (h.not_symbolic w rfl)
  · rintro v ⟨rfl⟩
    simp [isNegated]
  · rw [List.singleton_append, atom_tilde, hatom]

/-- A name and an at-sign before a pattern, with or without a space behind them. -/
theorem asPat {v : Word} (hv : IsBare a v)
    (hhead : ∀ i ∈ v.head?, i.test (fun c => a.isSymbol c || a.kind c = .large) = false)
    (h : IsAtom a p (w :: ws)) (hw : w ≠ []) :
    IsAtom a (.asPat (nameIn a v).name p) ((v ++ .chr '@' :: w) :: ws) ∧
      IsAtom a (.asPat (nameIn a v).name p) ((v ++ [.chr '@']) :: w :: ws) := by
  obtain ⟨u, hglue, hatom⟩ := h.exists_atom
  have hread : atom a (v ++ [.chr '@'] ++ u) = .asPat (nameIn a v).name p := by
    rw [← List.append_cons, atom_asPat hv.no_at fun j hj => (hv.head j hj).1, hatom]
  have hoperator : isOperator (v ++ [.chr '@']) = false := by
    rw [isOperator, List.any_append, Bool.or_eq_false_iff]
    exact ⟨hv.not_operator, by simp⟩
  obtain ⟨hw', hws⟩ := List.forall_mem_cons.mp h.not_operator
  rw [List.append_cons]
  constructor
  · refine ⟨?_, ?_, ?_, complete_cons_append hw h.complete, _, glue_cons_append hw hglue _, hread⟩
    · intro x hx
      obtain ⟨i, v, rfl⟩ := List.exists_cons_of_ne_nil hv.ne_nil
      obtain ⟨rfl, rfl⟩ := List.cons.inj hx
      exact isSymbolic_of_head (hhead i rfl) _
    · refine List.forall_mem_cons.mpr ⟨?_, hws⟩
      rw [isOperator, List.any_append, Bool.or_eq_false_iff]
      exact ⟨hoperator, hw'⟩
    · rintro x ⟨rfl⟩
      rw [List.append_assoc]
      exact hv.not_negated _
  · have hopen : isOpen (v ++ [.chr '@']) = true := by simp [isOpen]
    refine ⟨by simp, List.forall_mem_cons.mpr ⟨hoperator, h.not_operator⟩, ?_, ?_, _, ?_, hread⟩
    · rintro x ⟨rfl⟩
      exact hv.not_negated _
    · rw [Complete, List.getLast?_cons_cons]
      exact h.complete
    · rw [glue, hopen, if_pos rfl, hglue]

end IsAtom

/-- The arguments of a constructor, read one by one. -/
theorem exists_glue_flatten {ps : List PlainPat} {wss : List (List Word)}
    (h : List.Forall₂ (IsAtom a) ps wss) : ∃ us, glue wss.flatten = us ∧ us.map (atom a) = ps := by
  induction h with
  | nil => exact ⟨[], rfl, rfl⟩
  | cons hp _ ih =>
    obtain ⟨u, hglue, hatom⟩ := hp.exists_atom
    obtain ⟨us, hglues, hatoms⟩ := ih
    refine ⟨u :: us, ?_, by rw [List.map_cons, hatom, hatoms]⟩
    rw [List.flatten_cons, glue_append hp.complete, hglue, hglues]
    rfl

theorem not_operator_flatten {ps : List PlainPat} {wss : List (List Word)}
    (h : List.Forall₂ (IsAtom a) ps wss) : ∀ w ∈ wss.flatten, isOperator w = false := by
  induction h with
  | nil => simp
  | cons hp _ ih => exact List.forall_mem_append.mpr ⟨hp.not_operator, ih⟩

theorem IsBare.app {w : Word} (hw : IsBare a w) {ps : List PlainPat} {wss : List (List Word)}
    (hargs : List.Forall₂ (IsAtom a) ps wss) (hne : ps ≠ []) :
    IsRow a (.app (nameIn a w) ps) (w :: wss.flatten) := by
  obtain ⟨us, hglue, hatoms⟩ := exists_glue_flatten hargs
  refine ⟨?_, ?_, ?_, ?_⟩
  · rintro v hv
    obtain ⟨rfl, -⟩ := List.cons.inj hv
    exact hw.not_symbolic
  · exact List.forall_mem_cons.mpr ⟨hw.not_operator, not_operator_flatten hargs⟩
  · rintro v ⟨rfl⟩
    simpa using hw.not_negated []
  · rw [row, glue, hw.not_open, if_neg (by simp), hglue]
    cases us with
    | nil => exact absurd hatoms.symm hne
    | cons u us => rw [← hatoms]

end

/-! ### The words of atoms -/

section

variable (a : Alphabet)

/-- The word of a name. -/
structure IsNamed (q : QName) (w : Word) : Prop where
  isBare : IsBare a w
  head : ∀ i ∈ w.head?, i.is '_' = false ∧ i.test Char.isDigit = false
  last : ∀ i ∈ w.getLast?, i.is '#' = false ∧ ∀ fs, i ≠ .whole (.fields fs)
  nameOf_eq : nameOf a .name w = .name q

variable {a}

theorem readsOperators : (grammar a).ReadsOperators a := by
  intro q hq hsymbolic
  have hword : isSymbolic a ((letters q).map .chr) = true := by
    obtain ⟨c, hlast, hc⟩ := exists_getLast?_of_isSymbolic hq hsymbolic
    rcases isOperator_or_head?_letters hq hsymbolic with hletters | ⟨d, hhead, hd⟩
    · simpa [isSymbolic] using .inl hletters.2
    · simp [isSymbolic, hlast, hc, hhead, hd]
  change (if isSymbolic a ((letters q).map .chr) then _ else _) = _
  rw [hword, if_pos rfl, nameOf_chars]
  rfl

theorem notMem_signs_of_isWord {c : Char} (hc : a.isWord c = true) : c ∉ signs := by
  intro hmem
  have hmark : IsMark a c := by
    fin_cases hmem <;> exact isMark_of_ascii (by decide)
  exact hmark.ne_of_isWord hc rfl

theorem isNamed_nameTrees {q : QName} (hq : a.IsTerm q) :
    IsNamed a (plain q) ((grammar a).reader.items (nameTrees q)) := by
  have hname : nameOf a .name ((grammar a).reader.items (nameTrees q)) = .name (plain q) :=
    Grammar.nameOf_nameTrees readsOperators hq.isQName
  rcases Grammar.items_nameTrees_cases (grammar a).reader q with ⟨x, hitems⟩ | ⟨s, hident, hitems⟩
  · rw [hitems] at hname ⊢
    obtain rfl : x = .name (plain q) := hname
    exact ⟨⟨by simp, by simp, by simp, isSymbolic_of_getLast? rfl rfl⟩, by simp, by simp, rfl⟩
  · obtain ⟨c, hlast, hc⟩ := exists_getLast?_letters hq.isQName hident
    obtain ⟨d, hhead, hd⟩ := exists_head?_letters hq hident
    have hsign : ∀ c ∈ letters q, c ∉ signs := by
      intro c hc
      rcases isWord_or_dot_of_mem_letters hq.isQName hident hc with hc | rfl
      · exact notMem_signs_of_isWord hc
      · decide
    have hfirst : d ≠ '~' ∧ d ≠ '-' ∧ d ≠ '_' :=
      ⟨Alphabet.ne_of_letter hd (by decide), Alphabet.ne_of_letter hd (by decide),
        Alphabet.ne_of_letter hd (by decide)⟩
    have hdigit : d.isDigit = false := Alphabet.isDigit_of_letter hd
    have hhash : c ≠ '#' := IsMark.ne_of_isWord (isMark_of_ascii (by decide)) hc
    have hne : letters q ≠ [] := by
      rintro h
      simp [h] at hhead
    rw [hitems] at hname ⊢
    refine ⟨⟨by simpa using hne, ?_, by simp [hhead, hfirst], ?_⟩, by simp [hhead, hfirst, hdigit],
      by simp [hlast, hhash], hname⟩
    · rw [List.forall_mem_map]
      exact fun c hc => by simpa using hsign c hc
    · exact isSymbolic_of_getLast? (i := .chr c) (by simp [hlast]) (Alphabet.isSymbol_of_isWord hc)

namespace IsNamed

variable {q : QName} {w : Word}

theorem nameIn_eq (h : IsNamed a q w) : nameIn a w = q := by
  rw [nameIn, h.nameOf_eq]
  rfl

theorem bare_eq (h : IsNamed a q w) : bare a w = ofName a q := by
  rw [bare_eq_core fun i hi => (h.last i hi).1, core_eq_solid h.head, solid, h.nameOf_eq]
  split
  · next fs hlast => exact absurd rfl ((h.last _ hlast).2 fs)
  · rfl

theorem record (h : IsNamed a q w) (fs : List (QName × PlainPat)) :
    IsBare a (w ++ [.whole (.fields fs)]) ∧ bare a (w ++ [.whole (.fields fs)]) = .record q fs := by
  have hhead : (w ++ [Item.whole (Part.fields fs)]).head? = w.head? :=
    List.head?_append_of_ne_nil _ h.isBare.ne_nil
  have hlast : (w ++ [Item.whole (Part.fields fs)]).getLast? = some (.whole (.fields fs)) :=
    List.getLast?_concat
  constructor
  · refine ⟨by simp, ?_, by rw [hhead]; exact h.isBare.head, isSymbolic_of_getLast? hlast rfl⟩
    exact List.forall_mem_append.mpr ⟨h.isBare.no_sign, by simp⟩
  · rw [bare_eq_core (by simp [hlast]), core_eq_solid (by rw [hhead]; exact h.head), solid, hlast,
      List.dropLast_concat, h.nameIn_eq]

end IsNamed

/-- The head of a variable is neither a symbol nor a capital. -/
theorem head_var {n : Name} (hn : a.IsVar n) :
    ∀ i ∈ ((grammar a).reader.items (nameTrees (.unqualified n))).head?,
    i.test (fun c => a.isSymbol c || a.kind c = .large) = false := by
  rcases Grammar.items_nameTrees_cases (grammar a).reader
      (.unqualified n) with ⟨x, hitems⟩ | ⟨s, hident, hitems⟩
  · simp [hitems]
  · obtain rfl : n = .ident s := hident
    cases hn with
    | ident hs =>
      obtain ⟨c, rest, htext, hc, -⟩ := hs
      have hletters : letters (.unqualified (.ident s)) = c :: rest := htext
      simp [hitems, hletters, Alphabet.isSymbol, hc]

theorem isBare_whole (x : Part) : IsBare a [.whole x] :=
  ⟨by simp, by simp, by simp, isSymbolic_of_getLast? rfl rfl⟩

theorem isAtom_whole (p : PlainPat) : IsAtom a p [[.whole (.pat p)]] :=
  (isBare_whole (.pat p)).isAtom

theorem isAtom_name {q : QName} (hq : a.isCon q.name = true) :
    IsAtom a (.app q []) [[.whole (.name q)]] := by
  have hatom := (isBare_whole (a := a) (.name q)).isAtom
  have hname : bare a [.whole (.name q)] = ofName a q := rfl
  rwa [hname, ofName, if_pos hq] at hatom

theorem isAtom_wildcard : IsAtom a .wildcard [[.chr '_']] := by
  have hsymbol : a.isSymbol '_' = false := by
    rw [Alphabet.isSymbol_of_ascii (by decide)]
    decide
  have hbare : IsBare a [.chr '_'] :=
    ⟨by simp, by decide, by simp, isSymbolic_of_getLast? rfl hsymbol⟩
  exact hbare.isAtom

/-- A literal, and the same with a hash sign behind it. -/
theorem isAtom_constant {w : Word} (hw : IsBare a w)
    (hhead : ∀ i ∈ w.head?, i.test (fun c => a.isSymbol c || a.kind c = .large) = false)
    (hlast : ∀ i ∈ w.getLast?, i.is '#' = false) {c : Constant}
    (hc : core a w = .constant false c) :
    IsAtom a (.constant false c) [w] ∧ IsAtom a (.constant true c) [w ++ [.chr '#']] := by
  constructor
  · have hatom := hw.isAtom
    rwa [bare_eq_core hlast, hc] at hatom
  · have hbare : IsBare a (w ++ [.chr '#']) := by
      refine ⟨by simp, List.forall_mem_append.mpr ⟨hw.no_sign, by decide⟩, ?_, ?_⟩
      · rw [List.head?_append_of_ne_nil _ hw.ne_nil]
        exact hw.head
      · obtain ⟨i, w, rfl⟩ := List.exists_cons_of_ne_nil hw.ne_nil
        exact isSymbolic_of_head (hhead i rfl) _
    have hatom := hbare.isAtom
    rw [bare, List.getLast?_concat, if_pos (by simp), List.dropLast_concat, hc] at hatom
    exact hatom

theorem isAtom_quoted (c : Constant) :
    IsAtom a (.constant false c) [[.whole (.pat (.constant false c))]] ∧
    IsAtom a (.constant true c) [[.whole (.pat (.constant false c)), .chr '#']] :=
  isAtom_constant (isBare_whole _) (by simp) (by simp) rfl

theorem isAtom_number (n : Nat) :
    IsAtom a (.constant false (.number n)) [(Nat.toDigits 10 n).map .chr] ∧
    IsAtom a (.constant true (.number n)) [(Nat.toDigits 10 n).map .chr ++ [.chr '#']] := by
  obtain ⟨c, d, hhead, hlast, hc, hd⟩ := exists_ends_toDigits n
  have hfirst : c ≠ '~' ∧ c ≠ '-' ∧ c ≠ '_' := by
    refine ⟨?_, ?_, ?_⟩ <;>
    · rintro rfl
      contradiction
  have hsymbol := Alphabet.isSymbol_of_isWord (a := a) (isWord_of_isDigit hd)
  apply isAtom_constant
  · refine ⟨by simp, ?_, by simp [hhead, hfirst],
      isSymbolic_of_getLast? (i := .chr d) (by simp [hlast]) hsymbol⟩
    rw [List.forall_mem_map]
    exact fun c hc => by simpa using notMem_signs_of_isWord (forall_isWord_toDigits (a := a) n c hc)
  · simp [hhead, Alphabet.isSymbol_of_isWord (isWord_of_isDigit hc), Alphabet.kind_of_isDigit hc]
  · have hhash : d ≠ '#' := by
      rintro rfl
      contradiction
    simp [hlast, hhash]
  · simp [core, isNumber, hhead, hfirst, hc, Nat.ofDigitChars_toDigits]

end

/-! ### Printed patterns -/

section

variable (a : Alphabet)

/-- Words that are read as a pattern where one of this level can stand. -/
def Reads : Nat → PlainPat → List Word → Prop
  | 0 => IsPhrase a
  | 1 => IsRow a
  | _ => IsAtom a

abbrev Shows (level : Nat) (p : PlainPat) : Doc → Prop := (grammar a).Shows a (Reads a level p)

abbrev ShowsField (f : QName × PlainPat) : Doc → Prop :=
  (grammar a).Shows a fun ws => field a ws = f

variable {a}

theorem IsRow.reads {p : PlainPat} {ws : List Word} (h : IsRow a p ws) {level : Nat}
    (hlevel : level ≤ 1) : Reads a level p ws :=
  match level, hlevel with
  | 0, _ => h.isPhrase
  | 1, _ => h

theorem IsAtom.reads {p : PlainPat} {ws : List Word} (h : IsAtom a p ws) (level : Nat) :
    Reads a level p ws :=
  match level with
  | 0 | 1 => h.isRow.reads (by simp)
  | _ + 2 => h

theorem Reads.phrase_eq {level : Nat} {p : PlainPat} {ws : List Word} (h : Reads a level p ws) :
    phrase a ws = .pat p :=
  match level, h with
  | 0, h => IsPhrase.phrase_eq h
  | 1, h => (IsRow.isPhrase h).phrase_eq
  | _ + 2, h => (IsAtom.isRow h).isPhrase.phrase_eq

theorem shows_parensIf {d : Doc} {p : PlainPat} {level : Nat} {b : Bool}
    (hparens : b = true → Shows a 0 p d) (hd : b = false → Shows a level p d) :
    Shows a level p (parensIf b d) :=
  .parensIf hparens (fun _ h => h.phrase_eq) (fun _ => (isAtom_whole p).reads level) hd

/-- Parentheses around what can stand nowhere but at the lowest level. -/
theorem shows_parensIf_pos {d : Doc} {p : PlainPat} {level : Nat} (hd : Shows a 0 p d) :
    Shows a level p (parensIf (0 < level) d) := by
  apply shows_parensIf (fun _ => hd)
  intro hlevel
  obtain rfl : level = 0 := by simpa using hlevel
  exact hd

/-- The sign of a constructor holds a colon, or it is the arrow. -/
theorem sign_mem_letters {q : QName} (hq : a.IsCon q.name) (hsymbolic : q.isSymbolic = true) :
    ':' ∈ letters q ∨ '>' ∈ letters q := by
  obtain ⟨qualifier, name⟩ := q
  cases hq with
  | ident => contradiction
  | symbol _ hcolon =>
    have hmem := List.mem_of_mem_head? hcolon
    cases qualifier with
    | none => exact .inl hmem
    | some m => exact .inl (List.mem_append_right _ (List.mem_cons_of_mem _ hmem))
  | @special con =>
    have hletters : letters ⟨qualifier, .special con⟩ = con.text.toList := by
      cases qualifier <;> rfl
    rw [hletters]
    cases con with
    | fn => exact .inr (by decide)
    | cons => exact .inl (by decide)
    | unit | list | tuple => contradiction

theorem isOperator_infixTrees {q : QName} (hq : a.IsCon q.name) :
    isOperator ((grammar a).reader.items (infixTrees q)) = true := by
  rcases Grammar.items_infixTrees_cases (grammar a).reader q with ⟨w, hitems⟩ | ⟨hsymbolic, hitems⟩
  · simp [hitems, isOperator]
  · rw [hitems, isOperator, List.any_eq_true]
    rcases sign_mem_letters hq hsymbolic with hmem | hmem
    · exact ⟨_, List.mem_map_of_mem hmem, by simp⟩
    · exact ⟨_, List.mem_map_of_mem hmem, by simp⟩

/-- A number with its sign, and what is behind it. -/
theorem shows_signed {d : Doc} {n : Int} {p : PlainPat} {v : List TokenTree}
    (hd : Worded a d [numberTrees n ++ v])
    (hp : IsAtom a p [(grammar a).reader.items ((Nat.toDigits 10 n.natAbs).map .chr ++ v)])
    (level : Nat) :
    Shows a level (if n < 0 then .neg p else p) (parensIf (0 < level && n < 0) d) := by
  rw [numberTrees] at hd
  split_ifs at hd ⊢ with hn
  · rw [decide_eq_true hn, Bool.and_true]
    exact shows_parensIf_pos ⟨_, hd, by simpa using! hp.isRow.neg⟩
  · rw [decide_eq_false hn, Bool.and_false]
    exact ⟨_, hd, hp.reads level⟩

theorem shows_infixApp {left right : PlainPat} {d e : Doc} {op : QName} (hd : Shows a 1 left d)
    (hname : a.IsCon op.name) (hop : a.IsQualified op) (he : Shows a 1 right e) (m : Mode) :
    Shows a 0 (.infixApp left (plain op) right) (m.fillOnside [d, op.infixDoc, e]) := by
  obtain ⟨ws, hws, hreads⟩ := hd
  obtain ⟨vs, hvs, hreads'⟩ := he
  have hq : a.IsQName op := ⟨hname.isName, hop⟩
  refine ⟨_, worded_fillOnside (.cons hws (.cons (worded_infixDoc hq) (.cons hvs .nil))) m
    (by simp), ?_⟩
  have hread : infixOf a .name ((grammar a).reader.items (infixTrees op)) = .name (plain op) :=
    Grammar.infixOf_infixTrees readsOperators hq
  have hphrase :=
    IsRow.infixApp hreads (by simpa using hws.ne_nil) (isOperator_infixTrees hname) hreads'
  rw [hread] at hphrase
  simpa using! hphrase

theorem shows_name {q : QName} (hq : a.IsTerm q) (level : Nat) :
    Shows a level (ofName a (plain q)) q.doc := by
  have hnamed := isNamed_nameTrees hq
  refine ⟨_, worded_doc hq.isQName, ?_⟩
  rw [← hnamed.bare_eq]
  exact hnamed.isBare.isAtom.reads level

theorem worded_wildcard : Worded a (char '_') [[.chr '_']] := by
  have hblank : a.isWord '_' = true := by simp [Alphabet.isWord]
  have hname : a.IsName (.ident "_") := .ident (by decide) (by decide) (by simpa using hblank)
  exact .word (by simpa using! Spells.ofText (s := "_") (by decide)) (isWord_ident hname)

/-- Whole numbers, characters and strings, boxed or not. -/
theorem shows_lit {lit : Literal} (hlit : lit.isFractional = false) (level : Nat) :
    Shows a level (.ofLiteral lit) (parensIf (0 < level && lit.isNegative) lit.doc) := by
  have hhash : IsMark a '#' := isMark_of_ascii (by decide)
  have hbehind : ∀ {d : Doc} {w : List TokenTree}, Worded a d [w] → Worded a (d ++ char '#')
      [w ++ [.chr '#']] := by
    intro d w hd
    exact hd.append (.char hhash (by decide))
      ((hd.isWord w (by simp)).append (fun _ => .mark hhash .nil) (by simp))
  have hplain : ∀ {d : Doc}, Shows a level (.ofLiteral lit) d → lit.isNegative = false →
      Shows a level (.ofLiteral lit) (parensIf (0 < level && lit.isNegative) d) := by
    intro d hd hpositive
    rw [hpositive, Bool.and_false]
    exact hd
  cases lit with
  | frac | floatPrim | doublePrim => contradiction
  | char c => exact hplain ⟨_, worded_char c, (isAtom_quoted (.char c)).1.reads level⟩ rfl
  | string s => exact hplain ⟨_, worded_string s, (isAtom_quoted (.string s)).1.reads level⟩ rfl
  | charPrim c =>
    exact hplain ⟨_, hbehind (worded_char c), (isAtom_quoted (.char c)).2.reads level⟩ rfl
  | stringPrim s =>
    exact hplain ⟨_, hbehind (worded_string s), (isAtom_quoted (.string s)).2.reads level⟩ rfl
  | int n =>
    refine shows_signed (v := []) ?_ ?_ level
    · simpa using! worded_int n.val
    · simpa using (isAtom_number n.val.natAbs).1
  | intPrim n =>
    refine shows_signed (v := [.chr '#']) (hbehind (worded_int n.val)) ?_ level
    simpa using (isAtom_number n.val.natAbs).2

theorem shows_app {con : QName} (hq : a.IsTerm con) (hname : a.IsCon con.name) {args : List Pat}
    {ds : List Doc} (hds : List.Forall₂ (fun p => Shows a 2 p.normal) args ds) (m : Mode)
    (level : Nat) :
    Shows a level (.app (plain con) (args.map Pat.normal))
      (parensIf (1 < level && !args.isEmpty) (m.fillOnside (con.doc :: ds))) := by
  obtain ⟨wss, hwss, hreads⟩ := exists_words hds
  have hnamed := isNamed_nameTrees hq
  have hworded := worded_fillOnside (.cons (worded_doc hq.isQName) hwss) m (by simp)
  cases args with
  | nil =>
    cases hreads
    refine shows_parensIf (by simp) fun _ => ⟨_, hworded, ?_⟩
    have hname : ofName a (plain con) = .app (plain con) [] := by
      rw [ofName, plain_name, hname.isCon_eq, if_pos rfl]
    have hatom := hnamed.isBare.isAtom
    rw [hnamed.bare_eq, hname] at hatom
    simpa using hatom.reads level
  | cons p ps =>
    have hargs : List.Forall₂ (IsAtom a) ((p :: ps).map Pat.normal)
        (wss.map (List.map (grammar a).reader.items)) := by
      rw [List.forall₂_map_left_iff, List.forall₂_map_right_iff]
      exact hreads
    have hrow := hnamed.isBare.app hargs (by simp)
    rw [hnamed.nameIn_eq] at hrow
    have hshows : ∀ level ≤ 1,
        Shows a level (.app (plain con) ((p :: ps).map Pat.normal))
        (m.fillOnside (con.doc :: ds)) := by
      intro level hlevel
      refine ⟨_, hworded, ?_⟩
      simpa [List.map_flatten] using hrow.reads hlevel
    refine shows_parensIf (fun _ => hshows 0 (by simp)) fun hlevel => hshows level ?_
    simpa using hlevel

/-- Behind the name and the at-sign the pattern follows directly or after a space. -/
theorem shows_asPat {name : Name} (hname : a.IsVar name) {p : PlainPat} {d : Doc}
    (hd : Shows a 2 p d) (m : Mode) (level : Nat) :
    Shows a level (.asPat name p) (name.doc ++ char '@' ++ d) ∧
      Shows a level (.asPat name p) (m.fillOnside [name.doc ++ char '@', d]) := by
  have hq : a.IsTerm (.unqualified name) := ⟨.inl hname, Alphabet.isQualified_unqualified _⟩
  have hat : IsMark a '@' := isMark_of_ascii (by decide)
  have hword : ∀ {w : List TokenTree}, Valid a false w → (∀ t ∈ w, t ≠ .chr ' ' ∧ t ≠ .chr ',') →
      IsWord a (nameTrees (.unqualified name) ++ .chr '@' :: w) := fun hw hsolid =>
    ((worded_doc hq.isQName).isWord _ (by simp)).append (fun _ => .mark hat hw)
      (List.forall_mem_cons.mpr ⟨by simp, hsolid⟩)
  have hname' : Worded a (name.doc ++ char '@') [nameTrees (.unqualified name) ++ [.chr '@']] :=
    Worded.append (worded_doc hq.isQName) (.char hat (by decide)) (hword .nil (by simp))
  obtain ⟨ws, hws, hreads⟩ := hd
  obtain ⟨w, ws, rfl⟩ := List.exists_cons_of_ne_nil hws.ne_nil
  have hw := hws.isWord w (by simp)
  have hnamed := isNamed_nameTrees hq
  obtain ⟨hdirect, hspace⟩ :=
    IsAtom.asPat hnamed.isBare (head_var hname) hreads (hw.items_solid _).1
  rw [hnamed.nameIn_eq, plain_name] at hdirect hspace
  constructor
  · refine ⟨_, hname'.append hws (by simpa using hword hw.valid hw.solid), ?_⟩
    simpa using! hdirect.reads level
  · refine ⟨_, worded_fillOnside (.cons hname' (.cons hws .nil)) m (by simp), ?_⟩
    simpa using! hspace.reads level

theorem showsField_fillOnside {q : QName} (hname : a.IsVar q.name) (hq : a.IsQualified q)
    {p : PlainPat} {d : Doc} (hd : Shows a 0 p d) (m : Mode) :
    ShowsField a (q, p) (m.fillOnside [q.doc, equals, d]) := by
  have hmark : IsMark a '=' := isMark_of_ascii (by decide)
  have hequals : Worded a equals [[.chr '=']] := .char hmark (by decide)
  have hterm : a.IsTerm q := ⟨.inl hname, hq⟩
  obtain ⟨ws, hws, hreads⟩ := hd
  refine ⟨_, worded_fillOnside (.cons (worded_doc hterm.isQName) (.cons hequals (.cons hws .nil))) m
    (by simp), ?_⟩
  simp [field, (isNamed_nameTrees hterm).nameIn_eq, hname.plain_eq, hreads.pattern_eq]

theorem shows_record {con : QName} (hq : a.IsTerm con) {fs : List (QName × PlainPat)}
    {ds : List Doc} (hds : List.Forall₂ (ShowsField a) fs ds) (m : Mode) (level : Nat) :
    Shows a level (.record (plain con) fs) (con.doc ++ m.braceList ds) := by
  obtain ⟨wss, hwss, hfields⟩ := exists_words hds
  have hclose :
      (grammar a).close .curly ((grammar a).reader.items (joinParts (wss.map joinWords))) =
        .fields fs := by
    have hread : wss.map (fun ws => field a (ws.map (grammar a).reader.items)) = fs := by
      simpa using map_eq_of_forall₂ (f := id) hfields
    change fields a _ = _
    rw [← hread]
    cases wss with
    | nil => rfl
    | cons ws wss =>
      have hwords := forall_of_worded hwss
      rw [fields, isEmpty_items_joinParts _ (by simp) hwords, if_neg (by simp),
        phrases_items_joinParts _ (by simp) fun ws hws => (hwords ws hws).2, List.map_map]
      rfl
  obtain ⟨hbare, hrecord⟩ := (isNamed_nameTrees hq).record fs
  have hname := worded_doc hq.isQName
  have hbrace := worded_braceList hwss m
  have hword : IsWord a (nameTrees con ++ [.group .curly (joinParts (wss.map joinWords))]) :=
    (hname.isWord _ (by simp)).append (fun _ => .group (valid_joinParts_worded hwss) .nil) (by simp)
  refine ⟨_, hname.append hbrace hword, ?_⟩
  have hatom := hbare.isAtom
  rw [hrecord, ← hclose] at hatom
  simpa using! hatom.reads level

end

end Reading.PatReader

namespace Syntax

open PatReader

variable {a : Alphabet}

theorem Pat.Lexical.shows {p : Pat} (hp : p.Lexical a) (m : Mode) (level : Nat) :
    (p.pretty m level).Meets (Shows a level p.normal) := by
  induction hp generalizing level with
  | @var name hname =>
    rw [Pat.pretty, Pat.normal]
    have hshows :=
      shows_name (a := a) (q := .unqualified name) ⟨.inl hname,
        Alphabet.isQualified_unqualified _⟩ level
    rw [ofName, plain_name, QName.unqualified, hname.isCon_eq] at hshows
    exact .pure hshows
  | lit hlit =>
    rw [Pat.pretty, Pat.normal]
    exact .pure (shows_lit hlit level)
  | neg _ ih =>
    rw [Pat.pretty, Pat.normal]
    refine .bind (ih 2) fun d hd => .pure (shows_parensIf_pos ?_)
    obtain ⟨ws, hws, hreads⟩ := hd
    obtain ⟨w, ws, rfl⟩ := List.exists_cons_of_ne_nil hws.ne_nil
    refine ⟨_, .mark (isMark_of_ascii (by decide)) (by decide) hws, ?_⟩
    simpa using! hreads.isRow.neg
  | infixApp _ hname hop _ hleft hright =>
    rw [Pat.pretty, Pat.normal]
    refine .bind (hleft 1) fun d hd => .bind (hright 1) fun e he => .pure (shows_parensIf_pos ?_)
    exact shows_infixApp hd hname hop he m
  | @app con args hname hcon _ ih =>
    rw [Pat.pretty, Pat.normal, Pat.pretties_eq, Pat.normals_eq]
    refine .bind (.mapM_forall₂ fun p hp => ih p hp 2) fun ds hds => .pure ?_
    exact shows_app ⟨.inr hname, hcon⟩ hname hds m level
  | tuple _ ih =>
    rw [Pat.pretty, Pat.normal, Pat.pretties_eq, Pat.normals_eq]
    refine .guard fun hlength => .bind (.mapM_forall₂ fun p hp => ih p hp 0) fun ds hds => .pure ?_
    apply Grammar.Shows.parenList hds (fun p ws h => h.phrase_eq) m hlength
    simpa [grammar, toPat, List.map_map, Function.comp_def] using (isAtom_whole _).reads level
  | @list elems _ ih =>
    rw [Pat.pretty, Pat.normal, Pat.pretties_eq, Pat.normals_eq]
    refine .bind (.mapM_forall₂ fun p hp => ih p hp 0) fun ds hds => .pure ?_
    apply Grammar.Shows.bracketList hds (fun p ws h => h.phrase_eq) m
    cases elems with
    | nil => exact (isAtom_name rfl).reads level
    | cons p ps =>
      simpa [grammar, toPat, PlainPat.ofList, List.map_map,
        Function.comp_def] using (isAtom_whole _).reads level
  | paren _ ih =>
    rw [Pat.pretty, Pat.normal]
    exact .bind (ih 0) fun d hd =>
      .pure (hd.parens (fun _ h => h.phrase_eq) ((isAtom_whole _).reads level))
  | record hname hcon hfields _ ih =>
    rw [Pat.pretty, Pat.normal, PatField.pretties_eq, PatField.normals_eq]
    refine .bind (.mapM_forall₂ (R := fun f => ShowsField a f.normal) ?_) fun ds hds => .pure ?_
    · rintro ⟨q, p⟩ hmem
      obtain ⟨hname, hq⟩ := hfields q p hmem
      rw [PatField.pretty, PatField.normal]
      exact .bind (ih q p hmem 0) fun d hd => .pure (showsField_fillOnside hname hq hd m)
    · exact shows_record ⟨.inr hname, hcon⟩ (List.forall₂_map_left_iff.mpr hds) m level
  | @asPat name pat hname _ ih =>
    rw [Pat.normal]
    by_cases h : ∃ p, pat = .irrefutable p
    · obtain ⟨p, rfl⟩ := h
      exact .bind (.of_bind_pure (ih 2)) fun d hd => .pure (shows_asPat hname hd m level).2
    · rw [Pat.pretty_asPat level name fun p hp => h ⟨p, hp⟩]
      exact .bind (ih 2) fun d hd => .pure (shows_asPat hname hd m level).1
  | wildcard =>
    rw [Pat.pretty, Pat.normal]
    exact .pure ⟨_, worded_wildcard, isAtom_wildcard.reads level⟩
  | irrefutable _ ih =>
    rw [Pat.pretty, Pat.normal]
    refine .bind (ih 2) fun d hd => .pure ?_
    obtain ⟨ws, hws, hreads⟩ := hd
    obtain ⟨w, ws, rfl⟩ := List.exists_cons_of_ne_nil hws.ne_nil
    refine ⟨_, .mark (isMark_of_ascii (by decide)) (by decide) hws, ?_⟩
    simpa using! (IsAtom.irrefutable hreads ((hws.isWord w (by simp)).items_solid _).1).reads level

/-- Patterns with the same printed text, but for the spaces and line breaks between the words, are
the same up to parentheses, the signs of numbers and the ways to write special names. -/
theorem printed_pattern_determines_pattern (a : Alphabet) {p p' : Pat}
    (hwell : (Node.pat p).WellFormed) (hwell' : (Node.pat p').WellFormed) (hp : p.Lexical a)
    (hp' : p'.Lexical a) (style style' : Style) (m m' : Mode) (level level' : Nat) :
    ∃ cs cs', (Node.pat p).chunks style m level = .ok cs ∧
      (Node.pat p').chunks style' m' level' = .ok cs' ∧
      (Chunk.squeezed cs = Chunk.squeezed cs' → p.normal = p'.normal) := by
  have hphrase : ∀ level p ws, Reads a level p ws → (grammar a).phrase ws = .pat p :=
    fun _ _ _ h => h.phrase_eq
  obtain ⟨cs, cs', hcs, hcs', hsame⟩ :=
    Grammar.same_of_squeezed hwell (hp.shows m level) (hphrase _ _) hwell'
    (hp'.shows m' level') (hphrase _ _) style style'
  exact ⟨cs, cs', hcs, hcs', fun h => Part.pat.inj (hsame h)⟩

/-- A number with a sign or in a negation, and the empty list as a list or a constructor, under a
constructor. -/
theorem printed_record_in_cons_determines_pattern :
    let x := Pat.asPat (.ident "x") (.irrefutable .wildcard)
    let record (p : Pat) := Pat.record (.ofIdent "R") [.mk (.ofIdent "f") p]
    let p :=
      Pat.infixApp x (.ofSpecial .cons) (.ofCon "C" [.paren (.lit (.int ⟨-5, by decide⟩)),
        record (.list [])])
    let p' := Pat.infixApp x (.unqualified (.special .cons))
      (.ofCon "C" [.neg (.lit (.int ⟨5, by decide⟩)), record (.app (.ofSpecial .list) [])])
    ((Node.pat p).WellFormed ∧ p.Lexical .basic) ∧ ((Node.pat p').WellFormed ∧ p'.Lexical .basic) ∧
      ∃ cs cs', (Node.pat p).chunks { lineLength := 4 } {} 0 = .ok cs ∧
        (Node.pat p').chunks {} { layout := .none } 0 = .ok cs' ∧
        Chunk.squeezed cs = Chunk.squeezed cs' ∧ p.normal = p'.normal := by
  intro x record p p'
  have hwell : (Node.pat p).WellFormed ∧ (Node.pat p').WellFormed := by
    constructor <;>
      simp [p, p', x, record, Pat.ofCon, QName.ofSpecial, QName.ofIdent, QName.qualified,
        QName.unqualified, Node.wellFormed_iff, Node.lack?, Node.children, Pat.children,
        PatField.children, QName.children]
  have hx : x.Lexical .basic := .asPat (.ident (by decide) (by decide)) (.irrefutable .wildcard)
  have hrecord : ∀ {q : Pat}, q.Lexical .basic → (record q).Lexical .basic := by
    intro q hq
    have hmem : ∀ field pat, PatField.mk field pat ∈ [.mk (.ofIdent "f") q] →
        field = .ofIdent "f" ∧ pat = q := by simp
    refine .record (.ident (by decide)) (Alphabet.isQualified_unqualified _) (fun field pat h => ?_)
      fun field pat h => ?_
    · rw [(hmem field pat h).1]
      exact ⟨.ident (by decide) (by decide), Alphabet.isQualified_unqualified _⟩
    · rw [(hmem field pat h).2]
      exact hq
  have happ : ∀ {q r : Pat}, q.Lexical .basic → r.Lexical .basic →
      (Pat.ofCon "C" [q, r]).Lexical .basic := fun hq hr =>
    .app (.ident (by decide)) (Alphabet.isQualified_unqualified _) (by simp [hq, hr])
  have hspecial : ∀ con ∈ [SpecialCon.cons, .list], Alphabet.basic.IsCon (.special con) := by
    intro con hcon
    fin_cases hcon <;> exact .special (by decide) (by decide)
  have hlex : p.Lexical .basic ∧ p'.Lexical .basic :=
    ⟨.infixApp hx (hspecial _ (by simp)) (Alphabet.isQualified_ofSpecial _)
        (happ (.paren (.lit rfl)) (hrecord (.list (by simp)))),
      .infixApp hx (hspecial _ (by simp)) (Alphabet.isQualified_unqualified _)
        (happ (.neg (.lit rfl))
        (hrecord (.app (hspecial _ (by simp)) (Alphabet.isQualified_ofSpecial _) (by simp))))⟩
  obtain ⟨cs, cs', hcs, hcs', hsame⟩ :=
    printed_pattern_determines_pattern .basic hwell.1 hwell.2 hlex.1 hlex.2
    { lineLength := 4 } {} {} { layout := .none } 0 0
  have htext : ((Node.pat p).chunks { lineLength := 4 } {} 0).map Chunk.squeezed =
      ((Node.pat p').chunks {} { layout := .none } 0).map Chunk.squeezed := by decide +kernel
  rw [hcs, hcs'] at htext
  exact ⟨⟨hwell.1, hlex.1⟩, ⟨hwell.2, hlex.2⟩, cs, cs', hcs, hcs', Except.ok.inj htext,
    hsame (Except.ok.inj htext)⟩

end Syntax

end Offside
