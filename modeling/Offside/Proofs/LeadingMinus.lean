import Offside.Proofs.ChunkStream
import Offside.Proofs.Collisions
import Offside.Proofs.OpenForms

/-!
# Minus signs after operators

The right operand of an operator is printed at level 1, a negation and a negative number in
parentheses from level 3 on. So the operand starts with a bare minus sign exactly if the leftmost
operand of its chain is a negation or a negative number, or has a name in front that is spelled with
a minus sign.
-/
namespace Offside

open Doc Reading Syntax

/-! ### The first character of a text -/

theorem Doc.stream_chunks (style : Style) (d : Doc) : Chunk.Stream (d.chunks style) :=
  (reaches_lastCursor style d (rfl : restOfLine [] = 0)).stream

/-- A document at the margin is written from its first text on, unless a gap stands before it. -/
theorem Doc.Full.head?_chunks_iff {d : Doc} (hd : d.Full) (hlead : d.lead = 0)
    (style : Style) (w : String) :
    (d.chunks style).head? = some (.text w) ↔ d.opening = some w := by
  -- nothing that is written is empty, so the empty text before the document tells its first text
  -- from the later ones
  let R : String → String → Prop := fun s v => s = "" ∧ v = w
  have hlater : ¬ ∃ s v, [.text s, .text v] <:+: d.chunks style ∧ R s v := by
    rintro ⟨s, v, hpair, rfl, -⟩
    exact (stream_chunks style d).text_ne_empty (hpair.subset (by simp)) rfl
  have hfused : ¬ d.Fused R := mt (hd.fused_iff style R).mp hlater
  have hheld : (Cursor.start style.discipline d).held (some "") = some "" := by
    simp [Cursor.held, Cursor.start, hlead]
  have habut :=
    (hd.threaded style.limits 0 0 .broken (.start style.discipline d)).abut_iff R (some "")
  rw [← chunks_eq_lay, abut_chunks_iff, hheld, abut_beads_iff] at habut
  rw [or_iff_left hlater, or_iff_right hfused] at habut
  simpa [R] using habut

/-- A text that does not start with a blank starts with a leaf. -/
theorem Chunk.Stream.head?_textOf {cs : List Chunk} (hcs : Chunk.Stream cs) {c : Char}
    (hc : isInk c = true) :
    (Chunk.textOf cs).toList.head? = some c ↔
      ∃ w, cs.head? = some (.text w) ∧ w.toList.head? = some c := by
  have hcons : ∀ (k : Chunk) (ks : List Chunk),
      (Chunk.textOf (k :: ks)).toList = k.toText.toList ++ (Chunk.textOf ks).toList := by
    intro k ks
    rw [← List.singleton_append, textOf_append, String.toList_append]
    simp [Chunk.textOf]
  have hblank : ∀ b, isInk b = false → b ≠ c := by
    rintro b hb rfl
    exact absurd hc (by simp [hb])
  cases hcs with
  | nil => simp [Chunk.textOf]
  | @text s cs hs =>
    have hne : s.toList ≠ [] := by simpa using hs
    rw [hcons, Chunk.toText, List.head?_append_of_ne_nil _ hne]
    simp
  | @padded n s cs hn =>
    obtain ⟨n, rfl⟩ := Nat.exists_eq_add_of_le' hn
    simp [hcons, Chunk.toText, List.replicate_succ, hblank ' ' (by decide)]
  | newline =>
    simp [hcons, Chunk.toText, hblank '\n' (by decide)]

theorem Doc.Full.head?_render_eq_minus_iff {d : Doc} (hd : d.Full) (hlead : d.lead = 0)
    (style : Style) : (d.render style).toList.head? = some '-' ↔ d.firstSign = some '-' := by
  rw [Doc.render, (stream_chunks style d).head?_textOf (by decide), firstSign]
  simp only [hd.head?_chunks_iff hlead, Option.bind_eq_some_iff, signOf_eq_minus_iff]

/-! ### First signs of composed documents -/

namespace Doc

theorem firstSign_text (s : String) : (text s).firstSign = signOf s := by
  by_cases hs : s = ""
  · simp [firstSign, opening, beads, hs, signOf]
  · simp [firstSign, opening, beads, hs]

theorem firstSign_append {l : Doc} (hl : l.beads ≠ []) (r : Doc) :
    (l ++ r).firstSign = l.firstSign := by
  rw [firstSign, firstSign, opening, opening, beads_append, List.head?_append_of_ne_nil _ hl]

theorem firstSign_text_append {s : String} (hs : s ≠ "") (r : Doc) :
    (text s ++ r).firstSign = signOf s := by
  rw [firstSign_append (by simp [beads, hs]), firstSign_text]

theorem firstSign_enclosed {s : String} (hs : s ≠ "") (d r : Doc) :
    (text s ++ d ++ r).firstSign = signOf s := by
  rw [firstSign_append (by simp [beads, hs]), firstSign_text_append hs]

@[simp] theorem firstSign_parens (d : Doc) : d.parens.firstSign = none :=
  firstSign_enclosed (by decide) d rparen

@[simp] theorem firstSign_braceList (m : Mode) (ds : List Doc) :
    (m.braceList ds).firstSign = none :=
  firstSign_enclosed (by decide) _ rbrace

theorem firstSign_append_iff {r : Doc} (hr : r.firstSign ≠ some '-') (l : Doc) :
    (l ++ r).firstSign = some '-' ↔ l.firstSign = some '-' := by
  by_cases hl : l.beads = []
  · have hnone : l.firstSign = none := by simp [firstSign, opening, hl]
    have hright : (l ++ r).firstSign = r.firstSign := by simp [firstSign, opening, hl]
    simp [hnone, hright, hr]
  · rw [firstSign_append hl]

/-- After the first member of a row comes a gap, even if that one has no text. -/
theorem firstSign_row (m : Mode) (arrangement : Row) {d : Doc} (hd : d.isEmpty = false)
    (ds : List Doc) : (arrangement.doc m (d :: ds)).firstSign = d.firstSign := by
  have hrow : (arrangement.doc m (d :: ds)).beads =
      d.beads ++ beadsMore (ds.filter fun d => !d.isEmpty) := by
    rw [m.beads_row, beadsRow, List.filter_cons_of_pos (by simp [hd])]
  rw [firstSign, firstSign, opening, opening, hrow]
  cases d.beads with
  | nil => cases ds.filter fun d => !d.isEmpty <;> simp [beadsMore]
  | cons => rfl

end Doc

namespace Syntax

/-! ### Names -/

/-- Whether the name, without parentheses around it, is spelled with a minus sign in front. -/
def Name.opensMinus : Name → Bool
  | .ident s => s.toList.head? = some '-'
  | _ => false

def QName.opensMinus (q : QName) : Bool :=
  !q.isSymbolic && match q.qualifier with
    | none => q.name.opensMinus
    | some module => module.text.toList.head? = some '-'

theorem SpecialCon.signOf_text {con : SpecialCon} (hcon : con.isSymbolic = false) :
    signOf con.text = none := by
  cases con with
  | unit | list => decide
  | fn | cons => cases hcon
  | tuple arity => exact signOf_ofList_cons (by decide) _

variable {m : Mode}

theorem Name.firstSign_bareSketch {n : Name} (hn : n.isSymbolic = false) :
    (n.bareSketch.doc m).firstSign = some '-' ↔ n.opensMinus = true := by
  cases n with
  | ident s => simp [bareSketch, opensMinus, firstSign_text, signOf_eq_minus_iff]
  | symbol => cases hn
  | special con =>
    rw [bareSketch, Sketch.doc_word, firstSign_text, con.signOf_text hn]
    simp [opensMinus]

theorem Name.firstSign_sketch (n : Name) :
    (n.sketch.doc m).firstSign = some '-' ↔ n.opensMinus = true := by
  rw [sketch, Sketch.doc_parensIf]
  cases hn : n.isSymbolic with
  | false => exact n.firstSign_bareSketch hn
  | true =>
    have hopens : n.opensMinus = false := by cases n <;> simp_all [isSymbolic, opensMinus]
    simp [Doc.parensIf, hopens]

theorem firstSign_moduleDot (module : ModuleName) (r : Doc) :
    (text (module.text ++ ".") ++ r).firstSign = some '-' ↔
      module.text.toList.head? = some '-' := by
  rw [firstSign_text_append (by simp), signOf_eq_minus_iff, String.toList_append]
  cases module.text.toList <;> simp

theorem QName.firstSign_sketch (q : QName) :
    (q.sketch.doc m).firstSign = some '-' ↔ q.opensMinus = true := by
  rw [sketch, Sketch.doc_parensIf]
  cases hq : q.isSymbolic with
  | true => simp [Doc.parensIf, opensMinus, hq]
  | false =>
    obtain ⟨qualifier, name⟩ := q
    have hname : name.isSymbolic = false := hq
    cases qualifier with
    | none =>
      simpa [Doc.parensIf, bareSketch, opensMinus, hq]
        using Name.firstSign_bareSketch (m := m) hname
    | some module =>
      cases name with
      | ident => simp [Doc.parensIf, bareSketch, opensMinus, hq, firstSign_moduleDot]
      | symbol => cases hname
      | special con =>
        by_cases hprelude : module = .prelude
        · have hsign : signOf con.text = none := SpecialCon.signOf_text hname
          simp [Doc.parensIf, bareSketch, opensMinus, hprelude, firstSign_text, hsign,
            ModuleName.prelude]
        · simp [Doc.parensIf, bareSketch, opensMinus, hq, hprelude, firstSign_moduleDot]

/-! ### Expressions -/

namespace Expr

/-- The first operand of a chain of operators. -/
def leftmost : Expr → Expr
  | .infixApp left _ _ => left.leftmost
  | e => e

/-- A negation or a number below zero. -/
def isNegative : Expr → Bool
  | .neg _ => true
  | .lit l => l.isNegative
  | _ => false

/-- Whether at this level the expression starts with a name that is spelled with a minus sign in
front. -/
def namesMinus (level : Nat) : Expr → Bool
  | .var name | .con name | .recConstr name _ => name.opensMinus
  | .asPat name _ => name.opensMinus
  | .app f _ => level < 4 && f.namesMinus 3
  | .recUpdate e _ => e.namesMinus 4
  | _ => false

/-- Whether the expression starts with a minus sign at a level above 0. -/
def showsMinus (level : Nat) (e : Expr) : Bool :=
  if level < 3 then e.leftmost.isNegative || e.leftmost.namesMinus 3 else e.namesMinus level

end Expr

theorem Node.value_expr {e : Expr} (he : (Node.expr e).WellFormed) (m : Mode) (level : Nat) :
    ((Node.expr e).pretty m level).value = (e.sketch level).doc m :=
  Expr.value_pretty m (wellFormed_iff.mp he).1 level

theorem Node.isEmpty_expr {e : Expr} (he : (Node.expr e).WellFormed) (m : Mode) (level : Nat) :
    ((Node.expr e).pretty m level).value.isEmpty = false := by
  obtain ⟨w, hw⟩ := he.exists_begins m level
  exact hw.isEmpty

theorem Node.firstSign_of_startsItself {e : Expr} (he : (Node.expr e).WellFormed)
    (hitself : e.startsItself = true) (level : Nat) :
    ((Node.expr e).pretty m level).value.firstSign = e.sign level := by
  have hopens : ((Node.expr e).pretty m level).value.OpensWith (e.sign level) :=
    he.opensWith rfl rfl (Expr.opensWith_sketch hitself level)
  exact hopens.firstSign_eq (he.full m level)

/-- In parentheses nothing starts with a minus sign, and a chain and an application start as their
first part does. -/
theorem Node.firstSign_fillOnside {e : Expr} (he : (Node.expr e).WellFormed)
    (inner limit level : Nat) (parts : List Sketch) :
    ((Sketch.parensIf (limit ≤ level) (Sketch.fillOnside (.tree (.expr e) inner :: parts))).doc
      m).firstSign = some '-' ↔
      level < limit ∧ ((Node.expr e).pretty m inner).value.firstSign = some '-' := by
  have hrow : ((Sketch.fillOnside (.tree (.expr e) inner :: parts)).doc m).firstSign =
      ((Node.expr e).pretty m inner).value.firstSign := by
    rw [Sketch.fillOnside, Sketch.doc_row]
    exact firstSign_row m .fillOnside (isEmpty_expr he m inner) _
  rw [Sketch.doc_parensIf]
  by_cases hlevel : limit ≤ level
  · simp [Doc.parensIf, hlevel]
  · rw [Doc.parensIf, if_neg (by simpa using hlevel), hrow]
    simp [Nat.lt_of_not_le hlevel]

/-- The at sign after a name is no minus sign, also where the name has no characters. -/
theorem Expr.firstSign_asPat (level : Nat) (name : Name) (e : Expr) :
    (((Expr.asPat name e).sketch level).doc m).firstSign = some '-' ↔ name.opensMinus = true := by
  have hsign : (text "@").firstSign ≠ some '-' := by decide
  have hname := firstSign_append_iff hsign (name.sketch.doc m)
  rw [← name.firstSign_sketch (m := m), ← hname]
  cases e with
  | irrefutable e =>
    have hne : (name.sketch.doc m ++ text "@").isEmpty = false := by simp
    have hrow := firstSign_row m .fillOnside hne [((Node.expr (.irrefutable e)).pretty m 4).value]
    rw [← hrow, Expr.sketch, Sketch.fillOnside, Sketch.doc_row]
    rfl
  | _ =>
    have hbeads : (name.sketch.doc m ++ text "@").beads ≠ [] := by simp [beads]
    rw [← firstSign_append hbeads]
    rfl

/-- Above level 0 a type annotation is in parentheses, from level 3 on a chain, a negation and a
negative number. -/
theorem Node.firstSign_expr {e : Expr} (he : (Node.expr e).WellFormed) {level : Nat}
    (hlevel : 1 ≤ level) :
    ((Node.expr e).pretty m level).value.firstSign = some '-' ↔ e.showsMinus level = true := by
  cases e with
  | var name | con name =>
    rw [value_expr he, Expr.sketch, QName.firstSign_sketch]
    simp [Expr.showsMinus, Expr.leftmost, Expr.isNegative, Expr.namesMinus]
  | infixApp left op right =>
    have hleft : (Node.expr left).WellFormed := he.child (by simp [children, Expr.children])
    rw [value_expr he, Expr.sketch, firstSign_fillOnside hleft, firstSign_expr hleft (by decide)]
    by_cases hchain : level < 3 <;> simp [Expr.showsMinus, Expr.leftmost, Expr.namesMinus, hchain]
  | app f arg =>
    have hf : (Node.expr f).WellFormed := he.child (by simp [children, Expr.children])
    rw [value_expr he, Expr.sketch, firstSign_fillOnside hf, firstSign_expr hf (by decide)]
    by_cases hchain : level < 3
    · have happ : level < 4 := by omega
      simp [Expr.showsMinus, Expr.leftmost, Expr.isNegative, Expr.namesMinus, hchain, happ]
    · simp [Expr.showsMinus, Expr.namesMinus, hchain]
  | recConstr name fields =>
    rw [value_expr he, Expr.sketch, Sketch.doc_append, firstSign_append_iff (by simp),
      QName.firstSign_sketch]
    simp [Expr.showsMinus, Expr.leftmost, Expr.isNegative, Expr.namesMinus]
  | recUpdate e fields =>
    have hfirst : (Node.expr e).WellFormed := he.child (by simp [children, Expr.children])
    rw [value_expr he, Expr.sketch, Sketch.doc_append, firstSign_append_iff (by simp),
      Sketch.doc_tree, firstSign_expr hfirst (by decide)]
    simp [Expr.showsMinus, Expr.leftmost, Expr.isNegative, Expr.namesMinus]
  | typed loc e ty =>
    rw [value_expr he, Expr.sketch, Sketch.doc_parensIf]
    simp [Doc.parensIf, hlevel, Expr.showsMinus, Expr.leftmost, Expr.isNegative, Expr.namesMinus]
  | asPat name e =>
    rw [value_expr he, Expr.firstSign_asPat]
    simp [Expr.showsMinus, Expr.leftmost, Expr.isNegative, Expr.namesMinus]
  | lit l =>
    rw [firstSign_of_startsItself he rfl]
    by_cases hchain : level < 3
    · have hbare : ¬ 3 ≤ level := by omega
      simp [Expr.sign, Expr.showsMinus, Expr.leftmost, Expr.isNegative, Expr.namesMinus,
        hchain, hbare]
    · simp [Expr.sign, Expr.showsMinus, Expr.namesMinus, hchain, Nat.le_of_not_lt hchain]
  | _ =>
    rw [firstSign_of_startsItself he rfl]
    by_cases hchain : level < 3 <;>
      simp [Expr.sign, Expr.showsMinus, Expr.leftmost, Expr.isNegative, Expr.namesMinus, hchain]

/-! ### Right operands -/

namespace Expr

/-- The operator of an application or a section, and the operand after it. -/
def rightOperand? : Expr → Option (QOp × Expr)
  | .infixApp _ op right | .rightSection op right => some (op, right)
  | _ => none

variable {e right : Expr} {op : QOp}

theorem mem_children_of_rightOperand (h : e.rightOperand? = some (op, right)) :
    Node.expr right ∈ (Node.expr e).children := by
  cases e <;> simp_all [rightOperand?, Node.children, children]

/-- The operand follows the operator at level 1, whether parentheses go around both or not. -/
theorem infix_tokens_of_rightOperand (h : e.rightOperand? = some (op, right)) (m : Mode)
    (level : Nat) :
    op.doc.tokens ++ (Node.expr right).tokens m 1 <:+: (Node.expr e).tokens m level := by
  cases e with
  | infixApp left op right =>
    cases h
    by_cases hlevel : 3 ≤ level
    · refine ⟨lparen.tokens ++ (Node.expr left).tokens m 2, rparen.tokens, ?_⟩
      simp [Node.tokens, Node.pretty, Expr.pretty, parensIf, parens, hlevel]
    · refine ⟨(Node.expr left).tokens m 2, [], ?_⟩
      rw [tokens_infixApp left right op (by omega), List.append_nil, List.append_assoc]
  | rightSection op right =>
    cases h
    refine ⟨lparen.tokens, rparen.tokens, ?_⟩
    simp [Node.tokens, Node.pretty, Expr.pretty, parens, appendSpace]
  | _ => cases h

end Expr

/-- The right operand of an operator and of a section follows it at level 1. Its text starts with a
minus sign exactly if the leftmost operand of its chain is a negation or a negative number, or
starts with a name that is spelled so. -/
theorem minus_follows_operator_iff {t : Node} (ht : t.WellFormed) {e right : Expr}
    (he : (Node.expr e).Inside t) {op : QOp} (hright : e.rightOperand? = some (op, right))
    (m : Mode) (style : Style) :
    (∀ level, op.doc.tokens ++ (Node.expr right).tokens m 1 <:+: (Node.expr e).tokens m level) ∧
      ∃ s, (Node.expr right).print style m 1 = .ok s ∧
        (s.toList.head? = some '-' ↔
          right.leftmost.isNegative = true ∨ right.leftmost.namesMinus 3 = true) := by
  have hwhole : (Node.expr e).WellFormed := ht.inside he
  have hwell : (Node.expr right).WellFormed :=
    hwhole.child (Expr.mem_children_of_rightOperand hright)
  obtain ⟨w, hbegins⟩ := hwell.exists_begins m 1
  refine ⟨Expr.infix_tokens_of_rightOperand hright m, _, hwell.print_eq style m 1, ?_⟩
  rw [(hwell.full m 1).head?_render_eq_minus_iff hbegins.lead style,
    Node.firstSign_expr hwell (by decide)]
  simp [Expr.showsMinus]

/-- A negated argument of the operand is in parentheses. -/
theorem negated_argument_follows_operator :
    let f := Expr.app (.ofVar "f") (.neg (.ofVar "y"))
    let sum := Expr.infixApp (.ofVar "x") (.var (.unqualified (.symbol "+"))) f
    let t := Node.expr (.paren sum)
    t.WellFormed ∧ (Node.expr sum).Inside t ∧
      ∀ m style, ∃ s, (Node.expr f).print style m 1 = .ok s ∧ s.toList.head? ≠ some '-' := by
  intro f sum t
  have ht : t.WellFormed := by
    simp [t, f, sum, Node.wellFormed_iff, Node.children, Expr.children, Expr.ofVar, QName.ofIdent,
      QName.unqualified, QName.children, QOp.name]
  have hinside : (Node.expr sum).Inside t :=
    .child (by simp [t, Node.children, Expr.children]) .here
  have hbare : ¬ (f.leftmost.isNegative = true ∨ f.leftmost.namesMinus 3 = true) := by decide
  refine ⟨ht, hinside, fun m style => ?_⟩
  obtain ⟨-, s, hprint, hiff⟩ := minus_follows_operator_iff ht hinside rfl m style
  exact ⟨s, hprint, mt hiff.mp hbare⟩

/-- The operand of an operator or of a section that is a negation, a negative number or a chain that
starts with one is printed bare. -/
theorem negation_follows_operator_bare :
    let plus := QOp.var (.unqualified (.symbol "+"))
    let sum (right : Expr) := Node.expr (.infixApp (.ofVar "x") plus right)
    let neg := Expr.neg (.ofVar "y")
    let chain := Expr.infixApp neg plus (.ofVar "z")
    (sum neg).WellFormed ∧ (Node.expr neg).print {} {} 1 = .ok "-y" ∧
      (sum neg).print {} {} 0 = .ok "x + -y" ∧
      (sum (.lit (.int ⟨-3, by decide⟩))).print {} {} 0 = .ok "x + -3" ∧
      (sum chain).print {} {} 0 = .ok "x + -y + z" ∧
      (Node.expr (.rightSection plus neg)).print {} {} 0 = .ok "(+ -y)" := by
  intro plus sum neg chain
  refine ⟨?_, by decide +kernel, by decide +kernel, by decide +kernel, by decide +kernel,
    by decide +kernel⟩
  simp [sum, neg, plus, Node.wellFormed_iff, Node.children, Expr.children, Expr.ofVar,
    QName.ofIdent, QName.unqualified, QName.children, QOp.name]

end Syntax

end Offside
