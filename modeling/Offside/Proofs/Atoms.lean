import Offside.Proofs.Sketch

/-!
# The atoms of a plan

A plan in the end consists of words, trees and blocks, read from left to right. The words of a
tree's plan are names or texts that the printer makes itself, its trees stand directly below the
tree, its only block holds the tree's items, and no piece of code below the tree is left out. It
starts with a word or with a tree before which no empty line goes.
-/
namespace Offside.Syntax

/-- The parts of a plan that are not divided further. -/
inductive Atom where
  | word (s : String)
  | tree (t : Node) (level : Nat)
  | block (items : List Node)

namespace Sketch

mutual

/-- The atoms of a plan from left to right. -/
def atoms : Sketch → List Atom
  | .nothing => []
  | .word s => [.word s]
  | .tree t level => [.tree t level]
  | .beside l _ r => l.atoms ++ r.atoms
  | .upon u l => u.atoms ++ l.atoms
  | .row _ parts => atomsAll parts
  | .clauses items => items.map fun t => .tree t 0
  | .block _ items => [.block items]
  | .wheres items => if items.isEmpty then [] else [.block items]
  | .topLevel keyword header items =>
    .word keyword :: atomsAll header ++ items.map fun t => .tree t 0

def atomsAll : List Sketch → List Atom
  | [] => []
  | s :: ss => s.atoms ++ atomsAll ss

end

theorem atomsAll_eq (ss : List Sketch) : atomsAll ss = ss.flatMap atoms := by
  induction ss with
  | nil => rfl
  | cons s ss ih => rw [atomsAll, ih, List.flatMap_cons]

@[simp] theorem atoms_nothing : nothing.atoms = [] := rfl

@[simp] theorem atoms_word (s : String) : (word s).atoms = [.word s] := rfl

@[simp] theorem atoms_tree (t : Node) (level : Nat) : (tree t level).atoms = [.tree t level] := rfl

@[simp] theorem atoms_upon (u l : Sketch) : (upon u l).atoms = u.atoms ++ l.atoms := rfl

@[simp] theorem atoms_row (arrangement : Row) (parts : List Sketch) :
    (row arrangement parts).atoms = parts.flatMap atoms := by
  rw [atoms, atomsAll_eq]

@[simp] theorem atoms_clauses (items : List Node) :
    (clauses items).atoms = items.map fun t => .tree t 0 := rfl

@[simp] theorem atoms_block (indent : Mode → Nat) (items : List Node) :
    (block indent items).atoms = [.block items] := rfl

@[simp] theorem atoms_wheres (items : List Node) :
    (wheres items).atoms = if items.isEmpty then [] else [.block items] := rfl

@[simp] theorem atoms_topLevel (keyword : String) (header : List Sketch) (items : List Node) :
    (topLevel keyword header items).atoms =
      .word keyword :: header.flatMap atoms ++ items.map fun t => .tree t 0 := by
  rw [atoms, atomsAll_eq]

@[simp] theorem atoms_append (l r : Sketch) : (l ++ r).atoms = l.atoms ++ r.atoms := rfl

@[simp] theorem atoms_appendSpace (l r : Sketch) :
    (l.appendSpace r).atoms = l.atoms ++ r.atoms := rfl

@[simp] theorem atoms_parens (s : Sketch) :
    s.parens.atoms = .word "(" :: s.atoms ++ [.word ")"] := rfl

@[simp] theorem atoms_brackets (s : Sketch) :
    s.brackets.atoms = .word "[" :: s.atoms ++ [.word "]"] := rfl

@[simp] theorem atoms_braces (s : Sketch) :
    s.braces.atoms = .word "\x7b" :: s.atoms ++ [.word "\x7d"] := rfl

@[simp] theorem atoms_backquoted (s : Sketch) :
    s.backquoted.atoms = .word "\x60" :: s.atoms ++ [.word "\x60"] := rfl

end Sketch

/-! ### Words -/

/-- The keywords and signs of the printer. -/
def signs : List String :=
  ["(", ")", "[", "]", "\x7b", "\x7d", "\x60", ",", "#", "##", "!", "@", "~", "_", "-", "\\", "|",
    "=", "->", "<-", "=>", "::", "..", "(..)", "let", "in", "if", "then", "else", "case", "of",
    "do", "type", "data", "newtype", "class", "instance", "where", "deriving", "default", "foreign",
    "import", "export", "infix", "infixl", "infixr", "safe", "unsafe", "module", "hiding",
    "qualified", "as"]

/-- The words that the printer makes itself. -/
inductive IsOwnWord : String → Prop where
  | sign {s : String} : s ∈ signs → IsOwnWord s
  | char (c : Char) : IsOwnWord (Text.charLiteral c)
  | string (s : String) : IsOwnWord (Text.stringLiteral s)
  | decimal (n : Int) : IsOwnWord (Number.decimalText n)
  | real {f : Number.Format} (x : Number.Binary f) : IsOwnWord (Number.realText x)
  | special (con : SpecialCon) : IsOwnWord con.text
  | pragma (line : Int) (file : String) :
      IsOwnWord ("\x7b-# LINE " ++ Number.decimalText line ++ " " ++
        Text.stringLiteral file ++ " #-\x7d")

/-- What is asked of the words of a plan: the printer's own words have it, and a module's name keeps
it before a dot. -/
structure Phrasing (P : String → Prop) : Prop where
  own : ∀ s, IsOwnWord s → P s
  dotted : ∀ s, P s → P (s ++ ".")

theorem phrasing_true : Phrasing fun _ => True := ⟨fun _ _ => trivial, fun _ _ => trivial⟩

theorem Phrasing.sign {P : String → Prop} (hP : Phrasing P) {s : String} (hs : s ∈ signs) : P s :=
  hP.own s (.sign hs)

@[simp] def Node.isModule : Node → Bool
  | .module _ => true
  | _ => false

/-- A word satisfies `P`, a tree stands directly below `t`, and a block is the one of `t`. The items
of a module stand in no block. -/
def Atom.Belongs (P : String → Prop) (t : Node) : Atom → Prop
  | .word s => P s
  | .tree c _ => c ∈ t.children
  | .block items => items = t.items ∧ t.isModule = false

def Sketch.Belongs (P : String → Prop) (t : Node) (s : Sketch) : Prop :=
  ∀ a ∈ s.atoms, a.Belongs P t

namespace Sketch

variable {P : String → Prop} {t : Node}

@[simp] theorem belongs_nothing : nothing.Belongs P t := by
  simp [Belongs]

@[simp] theorem belongs_word (s : String) : (word s).Belongs P t ↔ P s := by
  simp [Belongs, Atom.Belongs]

@[simp] theorem belongs_tree (c : Node) (level : Nat) :
    (tree c level).Belongs P t ↔ c ∈ t.children := by
  simp [Belongs, Atom.Belongs]

@[simp] theorem belongs_upon (u l : Sketch) :
    (upon u l).Belongs P t ↔ u.Belongs P t ∧ l.Belongs P t := by
  simp [Belongs, or_imp, forall_and]

@[simp] theorem belongs_append (l r : Sketch) :
    (l ++ r).Belongs P t ↔ l.Belongs P t ∧ r.Belongs P t := by
  simp [Belongs, or_imp, forall_and]

@[simp] theorem belongs_appendSpace (l r : Sketch) :
    (l.appendSpace r).Belongs P t ↔ l.Belongs P t ∧ r.Belongs P t := by
  simp [Belongs, or_imp, forall_and]

@[simp] theorem belongs_row (arrangement : Row) (parts : List Sketch) :
    (row arrangement parts).Belongs P t ↔ ∀ s ∈ parts, s.Belongs P t := by
  simp only [Belongs, atoms_row, List.mem_flatMap]
  grind

@[simp] theorem belongs_clauses (items : List Node) :
    (clauses items).Belongs P t ↔ ∀ c ∈ items, c ∈ t.children := by
  simp [Belongs, Atom.Belongs]

@[simp] theorem belongs_block (indent : Mode → Nat) (items : List Node) :
    (block indent items).Belongs P t ↔ items = t.items ∧ t.isModule = false := by
  simp [Belongs, Atom.Belongs]

@[simp] theorem belongs_wheres (items : List Node) :
    (wheres items).Belongs P t ↔ items = [] ∨ items = t.items ∧ t.isModule = false := by
  cases items <;> simp [Belongs, Atom.Belongs]

@[simp] theorem belongs_topLevel (keyword : String) (header : List Sketch) (items : List Node) :
    (topLevel keyword header items).Belongs P t ↔
      P keyword ∧ (∀ s ∈ header, s.Belongs P t) ∧ ∀ c ∈ items, c ∈ t.children := by
  simp only [Belongs, atoms_topLevel, List.cons_append, List.forall_mem_cons,
    List.forall_mem_append, List.forall_mem_map, List.mem_flatMap, Atom.Belongs]
  grind

end Sketch

namespace Phrasing

variable {P : String → Prop} (hP : Phrasing P) {t : Node}
include hP

theorem belongs_parens (s : Sketch) : s.parens.Belongs P t ↔ s.Belongs P t := by
  simp [Sketch.parens, hP.sign (s := "(") (by decide), hP.sign (s := ")") (by decide)]

theorem belongs_brackets (s : Sketch) : s.brackets.Belongs P t ↔ s.Belongs P t := by
  simp [Sketch.brackets, hP.sign (s := "[") (by decide), hP.sign (s := "]") (by decide)]

theorem belongs_braces (s : Sketch) : s.braces.Belongs P t ↔ s.Belongs P t := by
  simp [Sketch.braces, hP.sign (s := "\x7b") (by decide), hP.sign (s := "\x7d") (by decide)]

theorem belongs_backquoted (s : Sketch) : s.backquoted.Belongs P t ↔ s.Belongs P t := by
  simp [Sketch.backquoted, hP.sign (s := "\x60") (by decide)]

theorem belongs_parensIf (b : Bool) (s : Sketch) :
    (Sketch.parensIf b s).Belongs P t ↔ s.Belongs P t := by
  cases b with
  | false => rfl
  | true => exact hP.belongs_parens s

theorem belongs_punctuate (ss : List Sketch) :
    (∀ s ∈ Sketch.punctuate ss, s.Belongs P t) ↔ ∀ s ∈ ss, s.Belongs P t := by
  fun_induction Sketch.punctuate ss with
  | case1 => rfl
  | case2 s => rfl
  | case3 s ss _ ih => simp [ih, hP.sign (s := ",") (by decide)]

theorem belongs_parenList (ss : List Sketch) :
    (Sketch.parenList ss).Belongs P t ↔ ∀ s ∈ ss, s.Belongs P t := by
  simp [Sketch.parenList, hP.belongs_parens, hP.belongs_punctuate]

theorem belongs_braceList (ss : List Sketch) :
    (Sketch.braceList ss).Belongs P t ↔ ∀ s ∈ ss, s.Belongs P t := by
  simp [Sketch.braceList, hP.belongs_braces, hP.belongs_punctuate]

theorem belongs_bracketList (ss : List Sketch) :
    (Sketch.bracketList ss).Belongs P t ↔ ∀ s ∈ ss, s.Belongs P t := by
  simp [Sketch.bracketList, hP.belongs_brackets]

theorem belongs_bareName {n : Name} (hn : (Node.name n).Worded P) : n.bareSketch.Belongs P t := by
  obtain ⟨here, -⟩ := hn
  cases n with
  | ident s => simpa [Name.bareSketch, Node.words] using here
  | symbol s => simpa [Name.bareSketch, Node.words] using here
  | special con => simpa [Name.bareSketch] using hP.own _ (.special con)

theorem belongs_name {n : Name} (hn : (Node.name n).Worded P) : n.sketch.Belongs P t :=
  (hP.belongs_parensIf _ _).mpr (hP.belongs_bareName hn)

theorem belongs_infixName {n : Name} (hn : (Node.name n).Worded P) : n.infixSketch.Belongs P t := by
  have hbare := hP.belongs_bareName hn (t := t)
  unfold Name.infixSketch
  split
  · exact hbare
  · exact (hP.belongs_backquoted _).mpr hbare

theorem belongs_bareQName {q : QName} (hq : (Node.qname q).Worded P) :
    q.bareSketch.Belongs P t := by
  obtain ⟨qualifier, name⟩ := q
  obtain ⟨-, below⟩ := hq
  have hname : name.bareSketch.Belongs P t :=
    hP.belongs_bareName (below (.name name) (by simp [Node.children, QName.children]))
  cases qualifier with
  | none => cases name <;> exact hname
  | some module =>
    obtain ⟨here, -⟩ := below (.moduleName module) (by simp [Node.children, QName.children])
    have hmodule : P (module.text ++ ".") := hP.dotted _ (here _ (by simp [Node.words]))
    cases name with
    | special con =>
      by_cases hprelude : module = .prelude <;>
        simp [QName.bareSketch, hprelude, hmodule, hP.own _ (.special con)]
    | _ => simpa [QName.bareSketch, hmodule] using hname

theorem belongs_qname {q : QName} (hq : (Node.qname q).Worded P) : q.sketch.Belongs P t :=
  (hP.belongs_parensIf _ _).mpr (hP.belongs_bareQName hq)

theorem belongs_infixQName {q : QName} (hq : (Node.qname q).Worded P) :
    q.infixSketch.Belongs P t := by
  have hbare := hP.belongs_bareQName hq (t := t)
  unfold QName.infixSketch
  split
  · exact hbare
  · exact (hP.belongs_backquoted _).mpr hbare

theorem belongs_literal (l : Literal) : l.sketch.Belongs P t := by
  have hhash : P "#" := hP.sign (by decide)
  have hhashes : P "##" := hP.sign (by decide)
  cases l with
  | char c => simpa [Literal.sketch] using hP.own _ (.char c)
  | string s => simpa [Literal.sketch] using hP.own _ (.string s)
  | int n => simpa [Literal.sketch] using hP.own _ (.decimal _)
  | frac r => simpa [Literal.sketch] using hP.own _ (.real _)
  | charPrim c => simpa [Literal.sketch, hhash] using hP.own _ (.char c)
  | stringPrim s => simpa [Literal.sketch, hhash] using hP.own _ (.string s)
  | intPrim n => simpa [Literal.sketch, hhash] using hP.own _ (.decimal _)
  | floatPrim r => simpa [Literal.sketch, hhash] using hP.own _ (.real _)
  | doublePrim r => simpa [Literal.sketch, hhashes] using hP.own _ (.real _)

end Phrasing

theorem Pat.atoms_asPat (level : Nat) (name : Name) (p : Pat) :
    (Pat.sketch level (.asPat name p)).atoms =
      name.sketch.atoms ++ [.word "@", .tree (.pat p) 2] := by
  cases p <;> simp [sketch]

theorem Expr.atoms_asPat (level : Nat) (name : Name) (e : Expr) :
    (Expr.sketch level (.asPat name e)).atoms =
      name.sketch.atoms ++ [.word "@", .tree (.expr e) 4] := by
  cases e <;> simp [sketch]

namespace Node

section

variable {P : String → Prop} (hP : Phrasing P)
include hP

theorem belongs_asPat {t : Node} {s : Sketch} {name : Sketch} {c : Node} {level : Nat}
    (hs : s.atoms = name.atoms ++ [.word "@", .tree c level]) (hname : name.Belongs P t)
    (hc : c ∈ t.children) : s.Belongs P t := by
  intro a ha
  rw [hs, List.mem_append] at ha
  rcases ha with ha | ha
  · exact hname a ha
  · simp only [List.mem_cons, List.not_mem_nil, or_false] at ha
    rcases ha with rfl | rfl
    · exact hP.sign (by decide)
    · exact hc

theorem belongs_context {t : Node} {c : Context} (hc : ∀ a ∈ c, Node.assertion a ∈ t.children) :
    c.sketch.Belongs P t := by
  have harrow : P "=>" := hP.sign (by decide)
  unfold Context.sketch
  split
  · exact Sketch.belongs_nothing
  · simpa [hP.belongs_parenList, harrow] using hc

theorem belongs_deriving {t : Node} {qs : List QName} (hqs : ∀ q ∈ qs, q.sketch.Belongs P t) :
    (derivingSketch qs).Belongs P t := by
  have hderiving : P "deriving" := hP.sign (by decide)
  match qs with
  | [] => exact Sketch.belongs_nothing
  | [q] => simpa [derivingSketch, hderiving] using hqs
  | _ :: _ :: _ => simpa [derivingSketch, hderiving, hP.belongs_parenList] using hqs

theorem belongs_entity {t : Node} (entity : String) : (entitySketch entity).Belongs P t := by
  unfold entitySketch
  split
  · exact Sketch.belongs_nothing
  · simpa using hP.own _ (.string entity)

theorem belongs_clauseHead {t : Node} {name : Name} {ss : List Sketch}
    (hname : name.sketch.Belongs P t ∧ name.infixSketch.Belongs P t)
    (hss : ∀ s ∈ ss, s.Belongs P t) : ∀ s ∈ clauseHeadSketches name ss, s.Belongs P t := by
  match ss with
  | [] => simpa [clauseHeadSketches] using hname.1
  | [_] => simpa [clauseHeadSketches, hname.1] using hss
  | [_, _] => by_cases hn : name.isSymbolic <;> simp_all [clauseHeadSketches]
  | _ :: _ :: _ :: _ =>
    by_cases hn : name.isSymbolic <;> simp_all [clauseHeadSketches, hP.belongs_parens]

theorem belongs_alternatives {t : Node} {ss : List Sketch} (hss : ∀ s ∈ ss, s.Belongs P t) :
    ∀ s ∈ alternativeSketches ss, s.Belongs P t := by
  cases ss with
  | nil => exact hss
  | cons s ss =>
    simpa [alternativeSketches, hP.sign (s := "=") (by decide),
      hP.sign (s := "|") (by decide)] using hss

theorem belongs_assoc {t : Node} (a : Assoc) : a.sketch.Belongs P t := by
  cases a <;> simp +decide [Assoc.sketch, hP.sign]

theorem belongs_safety {t : Node} (s : Safety) : s.sketch.Belongs P t := by
  cases s <;> simp +decide [Safety.sketch, hP.sign]

namespace Worded

variable {t : Node} (ht : t.Worded P)
include ht

theorem names (n : Name) (hn : Node.name n ∈ t.children) :
    n.sketch.Belongs P t ∧ n.infixSketch.Belongs P t :=
  ⟨hP.belongs_name (child ht hn), hP.belongs_infixName (child ht hn)⟩

theorem qnames (q : QName) (hq : Node.qname q ∈ t.children) :
    q.sketch.Belongs P t ∧ q.infixSketch.Belongs P t :=
  ⟨hP.belongs_qname (child ht hq), hP.belongs_infixQName (child ht hq)⟩

theorem qops (o : QOp) (ho : Node.qop o ∈ t.children) : o.name.infixSketch.Belongs P t :=
  hP.belongs_infixQName (child (child ht ho) (by simp [children]))

theorem ops (o : Op) (ho : Node.op o ∈ t.children) : o.name.infixSketch.Belongs P t :=
  hP.belongs_infixName (child (child ht ho) (by simp [children]))

theorem cnames (c : CName) (hc : Node.cname c ∈ t.children) : c.name.sketch.Belongs P t :=
  hP.belongs_name (child (child ht hc) (by simp [children]))

omit hP in
theorem modules (n : ModuleName) (hn : Node.moduleName n ∈ t.children) : P n.text :=
  (worded_iff.mp (child ht hn)).1 _ (by simp [words])

end Worded

theorem belongs_expr {e : Expr} (he : (Node.expr e).Worded P) (level : Nat) :
    (e.sketch level).Belongs P (.expr e) := by
  have hqname := he.qnames hP
  have hqop := he.qops hP
  have hname := he.names hP
  clear he
  cases e with
  | asPat name e =>
    exact belongs_asPat hP (Expr.atoms_asPat level name e)
      (hname _ (by simp [children, Expr.children])).1
      (by simp [children, Expr.children])
  | var | con | lit | infixApp | leftSection | rightSection | recConstr | recUpdate =>
    simp_all [Expr.sketch, children, Expr.children, hP.belongs_literal, hP.belongs_parensIf,
      hP.belongs_parens, hP.belongs_braceList]
  | _ =>
    clear hname hqname hqop
    simp +decide [Expr.sketch, children, Expr.children, items, hP.belongs_parensIf,
      hP.belongs_parens, hP.belongs_punctuate, hP.belongs_parenList, hP.belongs_bracketList,
      hP.sign, or_imp, forall_and]

theorem belongs_pat {p : Pat} (hp : (Node.pat p).Worded P) (level : Nat) :
    (p.sketch level).Belongs P (.pat p) := by
  have hqname := hp.qnames hP
  have hname := hp.names hP
  clear hp
  cases p with
  | asPat name p =>
    exact belongs_asPat hP (Pat.atoms_asPat level name p)
      (hname _ (by simp [children, Pat.children])).1
      (by simp [children, Pat.children])
  | var | infixApp | app | record =>
    simp_all [Pat.sketch, children, Pat.children, hP.belongs_parensIf, hP.belongs_braceList]
  | _ =>
    simp +decide [Pat.sketch, children, Pat.children, hP.belongs_literal, hP.belongs_parensIf,
      hP.belongs_parens, hP.belongs_punctuate, hP.belongs_parenList,
      hP.belongs_bracketList, hP.sign]

theorem belongs_ty {t : Ty} (ht : (Node.ty t).Worded P) (level : Nat) :
    (t.sketch level).Belongs P (.ty t) := by
  have hqname := ht.qnames hP
  have hname := ht.names hP
  clear ht
  cases t with
  | var | con => simp_all [Ty.sketch, children, Ty.children]
  | app f arg =>
    by_cases hf : f.isListCon <;>
      simp [Ty.sketch, hf, hP.belongs_brackets, hP.belongs_parensIf, children, Ty.children]
  | _ =>
    simp +decide [Ty.sketch, children, Ty.children, hP.belongs_parensIf,
      hP.belongs_parenList, hP.sign]

theorem belongs_conDecl {c : ConDecl} (hc : (Node.conDecl c).Worded P) :
    c.sketch.Belongs P (.conDecl c) := by
  have hname := hc.names hP
  clear hc
  cases c with
  | record loc name fields =>
    simp_all [ConDecl.sketch, children, ConDecl.children, hP.belongs_braceList]
  | positional loc name args =>
    rcases args with _ | ⟨a, _ | ⟨b, _ | ⟨c, rest⟩⟩⟩
    · simp_all [ConDecl.sketch, children, ConDecl.children]
    · simp_all [ConDecl.sketch, children, ConDecl.children]
    · by_cases hn : name.isSymbolic <;> simp_all [ConDecl.sketch, children, ConDecl.children]
    · simp_all [ConDecl.sketch, children, ConDecl.children]

theorem belongs_decl {d : Decl} (hd : (Node.decl d).Worded P) : d.sketch.Belongs P (.decl d) := by
  obtain ⟨here, -⟩ := id hd
  have hqname := hd.qnames hP
  have hname := hd.names hP
  have hop := hd.ops hP
  clear hd
  cases d with
  | dataDecl loc context name vars cons derivings =>
    have hcons : ∀ s ∈ alternativeSketches (cons.map fun c => .tree (.conDecl c) 0),
        s.Belongs P (.decl (.dataDecl loc context name vars cons derivings)) :=
      belongs_alternatives hP (by simp [children, Decl.children])
    simp_all [Decl.sketch, children, Decl.children, belongs_context hP, belongs_deriving hP,
      or_imp, forall_and]
    simp +decide [hP.sign]
  | _ =>
    simp_all [Decl.sketch, classSketch, children, Decl.children, items, words, belongs_context hP,
      belongs_deriving hP, belongs_entity hP, belongs_assoc hP, belongs_safety hP,
      hP.belongs_punctuate, hP.belongs_parenList, or_imp, forall_and] <;>
      simp +decide [hP.sign, hP.own _ (.decimal _)]

theorem belongs_clause {c : Match} (hc : (Node.clause c).Worded P) :
    c.sketch.Belongs P (.clause c) := by
  have hname := hc.names hP
  clear hc
  obtain ⟨loc, name, pats, rhs, wheres⟩ := c
  have hpats : ∀ s ∈ pats.map fun p => Sketch.tree (.pat p) 2,
      s.Belongs P (.clause ⟨loc, name, pats, rhs, wheres⟩) := by
    simp [children, Match.children]
  have hhead := belongs_clauseHead hP (hname name (by simp [children, Match.children])) hpats
  simp [Match.sketch, children, Match.children, items, or_imp, forall_and]
  exact hhead

theorem belongs_exportSpec {s : ExportSpec} (hs : (Node.exportSpec s).Worded P) :
    s.sketch.Belongs P (.exportSpec s) := by
  have hqname := hs.qnames hP
  have hcname := hs.cnames hP
  have hmodule := hs.modules
  clear hs
  cases s <;> simp_all [ExportSpec.sketch, children, ExportSpec.children, hP.belongs_parenList] <;>
    simp +decide [hP.sign]

theorem belongs_importSpec {s : ImportSpec} (hs : (Node.importSpec s).Worded P) :
    s.sketch.Belongs P (.importSpec s) := by
  have hname := hs.names hP
  have hcname := hs.cnames hP
  clear hs
  cases s <;> simp_all [ImportSpec.sketch, children, ImportSpec.children, hP.belongs_parenList]
  simp +decide [hP.sign]

theorem belongs_importDecl {i : ImportDecl} (hi : (Node.importDecl i).Worded P) :
    i.sketch.Belongs P (.importDecl i) := by
  have hmodule := hi.modules
  clear hi
  obtain ⟨loc, module, qualified, asName, specs⟩ := i
  cases qualified <;> cases asName <;> cases specs <;> simp_all [ImportDecl.sketch, children] <;>
    simp +decide [hP.sign]

theorem belongs_module {mod : Module} (hmod : (Node.module mod).Worded P) (level : Nat) :
    ((Node.module mod).sketch level).Belongs P (.module mod) := by
  have hmodule := hmod.modules
  clear hmod
  obtain ⟨loc, name, exports, imports, decls⟩ := mod
  cases exports <;>
    simp_all [Node.sketch, Module.headerSketches, children, hP.belongs_parenList, or_imp] <;>
    simp +decide [hP.sign]

/-- What is printed for a tree itself belongs to it. -/
theorem Worded.belongs {t : Node} (ht : t.Worded P) (level : Nat) :
    (t.sketch level).Belongs P t := by
  cases t with
  | module node => exact belongs_module hP ht level
  | exportSpec node => exact belongs_exportSpec hP ht
  | importDecl node => exact belongs_importDecl hP ht
  | importSpec node => exact belongs_importSpec hP ht
  | decl node => exact belongs_decl hP ht
  | conDecl node => exact belongs_conDecl hP ht
  | clause node => exact belongs_clause hP ht
  | ty node => exact belongs_ty hP ht level
  | pat node => exact belongs_pat hP ht level
  | expr node => exact belongs_expr hP ht level
  | name node => exact hP.belongs_name ht
  | qname node => exact hP.belongs_qname ht
  | moduleName node => simpa [Node.sketch, words] using (worded_iff.mp ht).1
  | op node => exact hP.belongs_infixName (ht.child (by simp [children]))
  | qop node => exact hP.belongs_infixQName (ht.child (by simp [children]))
  | cname node => exact hP.belongs_name (ht.child (by simp [children]))
  | literal node => exact hP.belongs_literal node
  | assoc node => exact belongs_assoc hP node
  | safety node => exact belongs_safety hP node
  | importSpecs node =>
    obtain ⟨hides, items⟩ := node
    cases hides <;> simp +decide [Node.sketch, ImportSpecs.sketch, children,
      hP.belongs_parenList, hP.sign]
  | rhs node =>
    cases node <;> simp +decide [Node.sketch, Rhs.sketch, children, Rhs.children, hP.sign]
  | guardedAlts node =>
    cases node <;> simp +decide [Node.sketch, GuardedAlts.sketch, children,
      GuardedAlts.children, hP.sign]
  | bangType node =>
    cases node <;> simp +decide [Node.sketch, BangType.sketch, children, BangType.children, hP.sign]
  | stmt node =>
    cases node <;> simp +decide [Node.sketch, Stmt.sketch, children, Stmt.children, items, hP.sign]
  | alt node | guardedAlt node | guardedRhs node =>
    cases node
    simp +decide [Node.sketch, Alt.sketch, GuardedAlt.sketch, GuardedRhs.sketch, children,
      Alt.children, GuardedAlt.children, GuardedRhs.children, items, hP.sign]
  | qualType node =>
    have hcontext : node.context.sketch.Belongs P (.qualType node) :=
      belongs_context hP (by simp [children])
    simp [Node.sketch, children, hcontext]
  | patField node | fieldUpdate node | fieldDecl node | assertion node =>
    have hname := ht.names hP
    have hqname := ht.qnames hP
    clear ht
    cases node
    simp_all [Node.sketch, PatField.sketch, FieldUpdate.sketch, children, PatField.children,
      FieldUpdate.children, hP.belongs_punctuate, or_imp, forall_and] <;> simp +decide [hP.sign]

end

end Node

/-! ### The first atom -/

/-- A word, or a tree directly below `t` before which no empty line goes. -/
def Atom.Leads (t : Node) : Atom → Prop
  | .word _ => True
  | .tree c _ => c ∈ t.children ∧ c.isSpaced = false
  | .block _ => False

/-- The plan starts with a word, or with a tree directly below `t` before which no empty line
goes. -/
def Sketch.Leads (t : Node) (s : Sketch) : Prop := ∃ a ∈ s.atoms.head?, a.Leads t

namespace Sketch

variable {t : Node} {s : Sketch}

theorem Leads.of_atoms {s' : Sketch} {rest : List Atom} (hs : s.Leads t)
    (h : s'.atoms = s.atoms ++ rest) : s'.Leads t := by
  obtain ⟨a, ha, hlead⟩ := hs
  refine ⟨a, ?_, hlead⟩
  rw [h, List.head?_append, Option.mem_def.mp ha]
  rfl

@[simp] theorem leads_word (s : String) : (word s).Leads t := ⟨.word s, rfl, trivial⟩

@[simp] theorem leads_tree (c : Node) (level : Nat) :
    (tree c level).Leads t ↔ c ∈ t.children ∧ c.isSpaced = false := by
  simp [Leads, Atom.Leads]

theorem Leads.append (hs : s.Leads t) (r : Sketch) : (s ++ r).Leads t := hs.of_atoms rfl

theorem Leads.appendSpace (hs : s.Leads t) (r : Sketch) : (s.appendSpace r).Leads t :=
  hs.of_atoms rfl

theorem Leads.upon (hs : s.Leads t) (l : Sketch) : (upon s l).Leads t := hs.of_atoms rfl

theorem Leads.row (hs : s.Leads t) (arrangement : Row) (ss : List Sketch) :
    (row arrangement (s :: ss)).Leads t :=
  hs.of_atoms (by rw [atoms_row, List.flatMap_cons])

@[simp] theorem leads_parens (s : Sketch) : s.parens.Leads t := (leads_word "(").of_atoms rfl

@[simp] theorem leads_brackets (s : Sketch) : s.brackets.Leads t := (leads_word "[").of_atoms rfl

theorem Leads.parensIf (hs : s.Leads t) (b : Bool) : (parensIf b s).Leads t := by
  cases b with
  | false => exact hs
  | true => exact leads_parens s

theorem Leads.punctuate (hs : s.Leads t) (ss : List Sketch) (arrangement : Row)
    (rest : List Sketch) :
    (Sketch.row arrangement (Sketch.punctuate (s :: ss) ++ rest)).Leads t := by
  cases ss with
  | nil => exact hs.row arrangement rest
  | cons => exact (hs.append _).row arrangement _

theorem leads_backquoted (s : Sketch) : s.backquoted.Leads t := (leads_word "\x60").of_atoms rfl

end Sketch

@[simp] theorem Name.leads_bareSketch {t : Node} (n : Name) : n.bareSketch.Leads t := by
  cases n <;> exact Sketch.leads_word _

@[simp] theorem Name.leads_sketch {t : Node} (n : Name) : n.sketch.Leads t :=
  n.leads_bareSketch.parensIf _

@[simp] theorem Name.leads_infixSketch {t : Node} (n : Name) : n.infixSketch.Leads t := by
  unfold infixSketch
  split
  · exact n.leads_bareSketch
  · exact Sketch.leads_backquoted _

@[simp] theorem QName.leads_bareSketch {t : Node} (q : QName) : q.bareSketch.Leads t := by
  obtain ⟨qualifier, name⟩ := q
  cases qualifier with
  | none => cases name <;> exact Sketch.leads_word _
  | some module =>
    cases name with
    | special con =>
      simp only [bareSketch]
      split
      · exact Sketch.leads_word _
      · exact (Sketch.leads_word _).append _
    | _ => exact (Sketch.leads_word _).append _

@[simp] theorem QName.leads_sketch {t : Node} (q : QName) : q.sketch.Leads t :=
  q.leads_bareSketch.parensIf _

@[simp] theorem QName.leads_infixSketch {t : Node} (q : QName) : q.infixSketch.Leads t := by
  unfold infixSketch
  split
  · exact q.leads_bareSketch
  · exact Sketch.leads_backquoted _

@[simp] theorem Literal.leads_sketch {t : Node} (l : Literal) : l.sketch.Leads t := by
  cases l <;> simp [sketch, Sketch.Leads.append]

namespace Node

open Sketch (leads_word)

theorem leads_expr (e : Expr) (level : Nat) : (e.sketch level).Leads (.expr e) := by
  cases e with
  | asPat name e => exact name.leads_sketch.of_atoms (Expr.atoms_asPat level name e)
  | letIn decls body => exact (((leads_word "let").appendSpace _).row .fillOnside _).parensIf _
  | caseOf scrutinee alts => exact (((leads_word "case").row .fillOnside _).upon _).parensIf _
  | _ =>
    simp [Expr.sketch, Sketch.Leads.append, Sketch.Leads.upon, Sketch.Leads.row,
      Sketch.Leads.parensIf, Sketch.parenList, Sketch.bracketList, children,
      Expr.children, isSpaced]

theorem leads_pat (p : Pat) (level : Nat) : (p.sketch level).Leads (.pat p) := by
  cases p with
  | asPat name p => exact name.leads_sketch.of_atoms (Pat.atoms_asPat level name p)
  | _ =>
    simp [Pat.sketch, Sketch.Leads.append, Sketch.Leads.row, Sketch.Leads.parensIf,
      Sketch.parenList, Sketch.bracketList, children, Pat.children, isSpaced]

theorem leads_ty (t : Ty) (level : Nat) : (t.sketch level).Leads (.ty t) := by
  cases t with
  | app f arg =>
    by_cases hf : f.isListCon <;>
      simp [Ty.sketch, hf, Sketch.Leads.row, Sketch.Leads.parensIf, children, Ty.children, isSpaced]
  | _ =>
    simp [Ty.sketch, Sketch.Leads.row, Sketch.Leads.parensIf, Sketch.parenList, children,
      Ty.children, isSpaced]

theorem leads_conDecl (c : ConDecl) : c.sketch.Leads (.conDecl c) := by
  cases c with
  | record loc name fields => exact name.leads_sketch.append _
  | positional loc name args =>
    match args with
    | [] | [_] | _ :: _ :: _ :: _ => exact name.leads_sketch.row .sepFirst _
    | [_, _] =>
      by_cases hn : name.isSymbolic <;>
        simp [ConDecl.sketch, hn, Sketch.Leads.row, children, ConDecl.children,
          isSpaced]

theorem leads_decl {d : Decl} (hd : (Node.decl d).lack? = none) : d.sketch.Leads (.decl d) := by
  cases d with
  | infixDecl loc assoc prec ops => cases assoc <;> exact (leads_word _).row .sepFirst _
  | typeSig loc names ty =>
    cases names with
    | nil => simp at hd
    | cons name names => exact name.leads_sketch.punctuate _ .sepFirst _
  | funBind clauses =>
    cases clauses with
    | nil => simp at hd
    | cons c cs => simp [Decl.sketch, Sketch.Leads, Atom.Leads, children, Decl.children, isSpaced]
  | patBind =>
    simp [Decl.sketch, Sketch.Leads.upon, Sketch.Leads.row, children, Decl.children, isSpaced]
  | typeDecl | foreignImport | foreignExport => exact (leads_word _).row .sepFirst _
  | dataDecl => exact ((leads_word _).row .sepFirst _).appendSpace _
  | newtypeDecl => exact (((leads_word _).row .sepFirst _).appendSpace _).appendSpace _
  | classDecl | instDecl => exact ((leads_word _).row .sepFirst _).upon _
  | defaultDecl => exact (leads_word _).appendSpace _

theorem leads_clause (c : Match) : c.sketch.Leads (.clause c) := by
  obtain ⟨loc, name, pats, rhs, wheres⟩ := c
  apply Sketch.Leads.upon
  match pats with
  | [] | [_] => exact name.leads_sketch.row .fillOnside _
  | _ :: _ :: rest =>
    by_cases hn : name.isSymbolic
    · cases rest <;>
        simp [clauseHeadSketches, hn, Sketch.Leads.row, children, Match.children, isSpaced]
    · simp [clauseHeadSketches, hn, Sketch.Leads.row]

/-- The plan of a tree that lacks nothing itself starts with a word or with a tree below it. -/
theorem leads_sketch {t : Node} (ht : t.lack? = none) (level : Nat) : (t.sketch level).Leads t := by
  cases t with
  | decl node => exact leads_decl ht
  | conDecl node => exact leads_conDecl node
  | clause node => exact leads_clause node
  | ty node => exact leads_ty node level
  | pat node => exact leads_pat node level
  | expr node => exact leads_expr node level
  | guardedAlts node =>
    cases node with
    | unguarded e => exact (leads_word "->").appendSpace _
    | guarded alts =>
      cases alts with
      | nil => simp at ht
      | cons a alts =>
        exact Sketch.Leads.row (by simp [children, GuardedAlts.children, isSpaced]) .lines _
  | rhs node =>
    cases node with
    | unguarded e => exact (leads_word "=").appendSpace _
    | guarded rhss =>
      cases rhss with
      | nil => simp at ht
      | cons r rhss => exact Sketch.Leads.row (by simp [children, Rhs.children, isSpaced]) .lines _
  | stmt node =>
    cases node <;>
      simp [Node.sketch, Stmt.sketch, Sketch.Leads.appendSpace, Sketch.Leads.upon, children,
        Stmt.children, isSpaced]
  | bangType node =>
    cases node <;> simp [Node.sketch, BangType.sketch, Sketch.Leads.append, children,
      BangType.children, isSpaced]
  | fieldDecl node =>
    obtain ⟨names, ty⟩ := node
    cases names with
    | nil => exact (leads_word "::").row .fill _
    | cons name names => exact name.leads_sketch.punctuate _ .fill _
  | qualType node =>
    obtain ⟨context, ty⟩ := node
    cases context with
    | nil => simp [Node.sketch, Sketch.Leads, Atom.Leads, Context.sketch, children, isSpaced]
    | cons a context => exact ((Sketch.leads_parens _).row .sepFirst _).row .fillOnside _
  | exportSpec node =>
    cases node <;> simp [Node.sketch, ExportSpec.sketch, Sketch.Leads.append,
      Sketch.Leads.appendSpace]
  | importSpec node => cases node <;> simp [Node.sketch, ImportSpec.sketch, Sketch.Leads.append]
  | importSpecs node =>
    obtain ⟨hides, items⟩ := node
    cases hides with
    | false => exact Sketch.leads_parens _
    | true => exact (leads_word "hiding").appendSpace _
  | alt node | patField node | fieldUpdate node =>
    cases node
    simp [Node.sketch, Alt.sketch, PatField.sketch, FieldUpdate.sketch, Sketch.Leads.upon,
      Sketch.Leads.row, children, Alt.children, isSpaced]
  | guardedAlt node | guardedRhs node =>
    cases node
    exact (leads_word "|").row .fillOnside _
  | assertion node => exact node.className.leads_sketch.row .fillOnside _
  | importDecl node => exact (leads_word "import").row .sepFirst _
  | module node =>
    exact (leads_word "module").of_atoms rfl
  | assoc node => cases node <;> exact leads_word _
  | safety node => cases node <;> exact leads_word _
  | name node => exact node.leads_sketch
  | qname node => exact node.leads_sketch
  | moduleName node => exact leads_word node.text
  | op node => exact node.name.leads_infixSketch
  | qop node => exact node.name.leads_infixSketch
  | cname node => exact node.name.leads_sketch
  | literal node => exact node.leads_sketch

end Node

/-! ### Nothing is left out -/

/-- The tree stands in the plan outside of its block. -/
def Sketch.Shows (c : Node) (s : Sketch) : Prop := ∃ level, .tree c level ∈ s.atoms

namespace Sketch

variable {c : Node}

@[simp] theorem shows_word (s : String) : ¬ (word s).Shows c := by
  simp [Shows]

@[simp] theorem shows_tree (t : Node) (level : Nat) : (tree t level).Shows c ↔ c = t := by
  simp [Shows]

@[simp] theorem shows_append (l r : Sketch) : (l ++ r).Shows c ↔ l.Shows c ∨ r.Shows c := by
  simp [Shows, exists_or]

@[simp] theorem shows_appendSpace (l r : Sketch) :
    (l.appendSpace r).Shows c ↔ l.Shows c ∨ r.Shows c :=
  shows_append l r

@[simp] theorem shows_upon (u l : Sketch) : (upon u l).Shows c ↔ u.Shows c ∨ l.Shows c :=
  shows_append u l

@[simp] theorem shows_row (arrangement : Row) (parts : List Sketch) :
    (row arrangement parts).Shows c ↔ ∃ s ∈ parts, s.Shows c := by
  simp only [Shows, atoms_row, List.mem_flatMap]
  grind

@[simp] theorem shows_clauses (items : List Node) : (clauses items).Shows c ↔ c ∈ items := by
  simp [Shows]

@[simp] theorem shows_parens (s : Sketch) : s.parens.Shows c ↔ s.Shows c := by
  simp [parens]

@[simp] theorem shows_brackets (s : Sketch) : s.brackets.Shows c ↔ s.Shows c := by
  simp [brackets]

@[simp] theorem shows_braces (s : Sketch) : s.braces.Shows c ↔ s.Shows c := by
  simp [braces]

@[simp] theorem shows_parensIf (b : Bool) (s : Sketch) : (parensIf b s).Shows c ↔ s.Shows c := by
  cases b with
  | false => rfl
  | true => exact shows_parens s

@[simp] theorem shows_punctuate (ss : List Sketch) :
    (∃ s ∈ punctuate ss, s.Shows c) ↔ ∃ s ∈ ss, s.Shows c := by
  fun_induction punctuate ss with
  | case1 => rfl
  | case2 s => rfl
  | case3 s ss _ ih => simp [ih]

@[simp] theorem shows_parenList (ss : List Sketch) :
    (parenList ss).Shows c ↔ ∃ s ∈ ss, s.Shows c := by
  simp [parenList]

@[simp] theorem shows_braceList (ss : List Sketch) :
    (braceList ss).Shows c ↔ ∃ s ∈ ss, s.Shows c := by
  simp [braceList]

@[simp] theorem shows_bracketList (ss : List Sketch) :
    (bracketList ss).Shows c ↔ ∃ s ∈ ss, s.Shows c := by
  simp [bracketList]

end Sketch

namespace Node

/-- The code directly below a tree is shown by its plan or stands in its block. -/
theorem shows_or_mem_items {t c : Node} (hc : c ∈ t.children) (hcode : c.isCode = true)
    (level : Nat) : (t.sketch level).Shows c ∨ c ∈ t.items := by
  have htop : t.isCode = true := by
    by_contra ht
    simp [not_isCode_child (by simpa using ht) c hc] at hcode
  cases t with
  | module node =>
    simp only [children, items] at hc ⊢
    grind [isCode]
  | decl node =>
    cases node <;> simp [children, Decl.children, items, Node.sketch, Decl.sketch] at hc ⊢ <;>
      grind [isCode]
  | expr node =>
    cases node with
    | asPat name e =>
      simp [children, Expr.children, Node.sketch, Sketch.Shows, Expr.atoms_asPat] at hc ⊢
      grind [isCode]
    | _ =>
      simp [children, Expr.children, items, Node.sketch, Expr.sketch, or_and_right,
        exists_or] at hc ⊢ <;>
        grind [isCode]
  | stmt node =>
    cases node <;> simp [children, Stmt.children, items, Node.sketch, Stmt.sketch] at hc ⊢ <;>
      grind [isCode]
  | rhs node =>
    cases node <;> simp [children, Rhs.children, items, Node.sketch, Rhs.sketch] at hc ⊢ <;>
      grind [isCode]
  | guardedAlts node =>
    cases node <;> simp [children, GuardedAlts.children, items, Node.sketch,
      GuardedAlts.sketch] at hc ⊢ <;>
      grind [isCode]
  | clause node | alt node | guardedAlt node | guardedRhs node | fieldUpdate node =>
    cases node
    simp [children, Match.children, Alt.children, GuardedAlt.children, GuardedRhs.children,
      FieldUpdate.children, items, Node.sketch, Match.sketch, Alt.sketch, GuardedAlt.sketch,
      GuardedRhs.sketch, FieldUpdate.sketch, or_and_right, exists_or] at hc ⊢
    grind [isCode]
  | _ => simp [isCode] at htop

/-- The items of a tree other than a module stand in a block. -/
theorem block_mem_atoms {t : Node} (hne : t.items ≠ []) (hmodule : t.isModule = false)
    (level : Nat) : .block t.items ∈ (t.sketch level).atoms := by
  have hparens : ∀ (b : Bool) (s : Sketch) items, .block items ∈ s.atoms →
      .block items ∈ (Sketch.parensIf b s).atoms := by
    intro b s items hs
    cases b <;> simp [Sketch.parensIf, hs]
  cases t with
  | module => simp [isModule] at hmodule
  | decl node => cases node <;> simp_all [items, Node.sketch, Decl.sketch, classSketch]
  | expr node =>
    cases node with
    | letIn | caseOf | doBlock =>
      apply hparens
      simp [items]
    | _ => exact absurd rfl hne
  | stmt node => cases node <;> simp_all [items, Node.sketch, Stmt.sketch]
  | clause node =>
    cases node
    simp_all [items, Node.sketch, Match.sketch]
  | alt node =>
    cases node
    simp_all [items, Node.sketch, Alt.sketch]
  | _ => exact absurd rfl hne

/-- A piece of code below a tree is in its plan, by itself or in the block. -/
theorem shows_or_mem_block {t c : Node} (hc : c ∈ t.children) (hcode : c.isCode = true)
    (level : Nat) :
    (t.sketch level).Shows c ∨ .block t.items ∈ (t.sketch level).atoms ∧ c ∈ t.items := by
  rcases shows_or_mem_items hc hcode level with hshows | hitem
  · exact .inl hshows
  · cases hmodule : t.isModule with
    | false => exact .inr ⟨block_mem_atoms (List.ne_nil_of_mem hitem) hmodule level, hitem⟩
    | true =>
      cases t with
      | module mod =>
        refine .inl ⟨0, ?_⟩
        rw [Node.sketch, Sketch.atoms_topLevel]
        exact List.mem_append_right _ (List.mem_map_of_mem hitem)
      | _ => simp at hmodule

end Node

end Offside.Syntax
