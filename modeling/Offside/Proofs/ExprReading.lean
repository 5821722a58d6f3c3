import Offside.Proofs.Grammar

/-!
# Printed expressions are unambiguous

The words of a printed expression without blocks are operators and the operands between them. An
operand is a function with its arguments, or such a row with a minus sign before it. So an
expression is read back from its text, but for how the operators of a chain associate.
-/
namespace Offside

open Reading Doc TokenTree

namespace Syntax

/-- An expression with its operators in chains, as they are written. -/
inductive Flat where
  | var (name : QName)
  | con (name : QName)
  | constant (c : Constant)
  | app (f arg : Flat)
  | neg (e : Flat)
  | chain (operands : List Flat) (operators : List QOp)
  | tuple (elems : List Flat)
  | list (elems : List Flat)
  /-- An expression of another form, as it is. -/
  | other (e : Expr)

/-- Operands with operators between them. -/
structure Chain where
  operands : List Flat
  operators : List QOp

namespace Chain

def single (e : Flat) : Chain := ⟨[e], []⟩

/-- A chain that is only an operand is that operand. -/
def whole : Chain → Flat
  | ⟨[e], []⟩ => e
  | ⟨operands, operators⟩ => .chain operands operators

@[simp] theorem whole_single (e : Flat) : (single e).whole = e := rfl

end Chain

/-- The operator with no module before special names. -/
def QOp.plain : QOp → QOp
  | .var q => .var (Reading.plain q)
  | .con q => .con (Reading.plain q)

/-- A negative number is the negation of a number. -/
def Flat.ofInt (n : Int) : Flat :=
  if n < 0 then .neg (.constant (.number n.natAbs)) else .constant (.number n.natAbs)

/-- The empty list is a constructor. -/
def Flat.ofList : List Flat → Flat
  | [] => .con (.unqualified (.special .list))
  | es => .list es

mutual

/-- The chain of directly nested operators at the top of an expression. Parentheses end it and are
dropped. -/
def Expr.chain : Expr → Chain
  | .infixApp left op right =>
    ⟨left.chain.operands ++ right.chain.operands, left.chain.operators ++ op.plain ::
      right.chain.operators⟩
  | .var q => .single (.var (plain q))
  | .con q => .single (.con (plain q))
  | .lit (.char c) => .single (.constant (.char c))
  | .lit (.string s) => .single (.constant (.string s))
  | .lit (.int n) => .single (.ofInt n.val)
  | .app f arg => .single (.app f.chain.whole arg.chain.whole)
  | .neg e => .single (.neg e.chain.whole)
  | .tuple elems => .single (.tuple (Expr.flats elems))
  | .list elems => .single (.ofList (Expr.flats elems))
  | .paren e => .single e.chain.whole
  | e => .single (.other e)

def Expr.flats : List Expr → List Flat
  | [] => []
  | e :: es => e.chain.whole :: Expr.flats es

end

/-- The normal form of an expression. -/
def Expr.flat (e : Expr) : Flat := e.chain.whole

theorem Expr.flats_eq (es : List Expr) : Expr.flats es = es.map Expr.flat := by
  induction es with
  | nil => rw [Expr.flats]; rfl
  | cons e es ih => rw [Expr.flats, ih, List.map_cons, Expr.flat]

/-- An operator with a name as it is written. -/
inductive QOp.Lexical (a : Alphabet) : QOp → Prop where
  | var {q : QName} (hname : a.IsVar q.name) (hq : a.IsQualified q) : Lexical a (.var q)
  | con {q : QName} (hname : a.IsCon q.name) (hq : a.IsQualified q) : Lexical a (.con q)

/-- An expression without blocks, with names as they are written. -/
inductive Expr.Lexical (a : Alphabet) : Expr → Prop where
  | var {q : QName} (hname : a.IsVar q.name) (hq : a.IsQualified q) : Lexical a (.var q)
  | con {q : QName} (hname : a.IsCon q.name) (hq : a.IsQualified q) : Lexical a (.con q)
  | char (c : Char) : Lexical a (.lit (.char c))
  | string (s : String) : Lexical a (.lit (.string s))
  | int (n : Number.Int128) : Lexical a (.lit (.int n))
  | infixApp {left right : Expr} {op : QOp} (hleft : Lexical a left) (hop : op.Lexical a)
      (hright : Lexical a right) :
      Lexical a (.infixApp left op right)
  | app {f arg : Expr} (hf : Lexical a f) (harg : Lexical a arg) : Lexical a (.app f arg)
  | neg {e : Expr} (he : Lexical a e) : Lexical a (.neg e)
  | tuple {elems : List Expr} (helems : ∀ e ∈ elems, Lexical a e) : Lexical a (.tuple elems)
  | list {elems : List Expr} (helems : ∀ e ∈ elems, Lexical a e) : Lexical a (.list elems)
  | paren {e : Expr} (he : Lexical a e) : Lexical a (.paren e)

end Syntax

open Syntax

namespace Reading.ExprReader

variable (a : Alphabet)

def named (q : QName) : Flat := if a.isCon q.name then .con q else .var q

/-- A word with a symbol or a backquote at its end. -/
def isOperator (w : List (Item Flat)) : Bool :=
  w.getLast?.any (Item.test fun c => a.isSymbol c || c = '\x60')

def isNegated (w : List (Item Flat)) : Bool := w.head?.any (Item.is '-')

def isNumber (w : List (Item Flat)) : Bool := w.head?.any (Item.test Char.isDigit)

def operatorOf : Flat → QOp
  | .con q => .con q
  | .var q => .var q
  | _ => .var (.ofIdent "")

def operator (w : List (Item Flat)) : QOp := operatorOf (infixOf a (named a) w)

def atom (w : List (Item Flat)) : Flat :=
  if isNumber w then .constant (.number (Nat.ofDigitChars 10 ((characters? w).getD []) 0)) else
    nameOf a (named a) w

abbrev application : List (List (Item Flat)) → Flat := applied .app (atom a)

/-- A function with its arguments, perhaps with a minus sign before it. -/
def operand : List (List (Item Flat)) → Flat
  | [] => application a []
  | w :: ws => if isNegated w then .neg (application a (w.tail :: ws)) else application a (w :: ws)

def chain (ws : List (List (Item Flat))) : Chain :=
  ⟨(ws.splitOnP (isOperator a)).map (operand a), (ws.filter (isOperator a)).map (operator a)⟩

/-- A word alone may be the name of an operator. -/
def phrase : List (List (Item Flat)) → Flat
  | [w] => if isOperator a w then nameOf a (named a) w else operand a [w]
  | ws => (chain a ws).whole

def grammar : Grammar Flat where
  quoted q := .constant q.constant
  named := named a
  phrase := phrase a
  tuple := .tuple
  list := .list
  braces _ := .tuple []

/-- A row of words that is read as the expression with this chain, and can stand where an expression
of this level can. -/
structure Reads (level : Nat) (c : Chain) (ws : List (List (Item Flat))) : Prop where
  whole_eq : (chain a ws).whole = c.whole
  chain_eq : level ≤ 2 → chain a ws = c
  head_not_operator : ∀ w ∈ ws.head?, isOperator a w = false
  forall_not_operator : 3 ≤ level → ∀ w ∈ ws, isOperator a w = false
  head_not_negated : 3 ≤ level → ∀ w ∈ ws.head?, isNegated w = false
  exists_word : 4 ≤ level → ∃ w, ws = [w]

variable {a}

theorem chain_eq_single {ws : List (List (Item Flat))} (hws : ∀ w ∈ ws, isOperator a w = false) :
    chain a ws = .single (operand a ws) := by
  rw [chain, List.splitOnP_eq_singleton hws, List.filter_eq_nil_iff.mpr (by simpa using hws)]
  rfl

theorem operand_eq_application {ws : List (List (Item Flat))}
    (hws : ∀ w ∈ ws.head?, isNegated w = false) : operand a ws = application a ws := by
  cases ws with
  | nil => rfl
  | cons w ws => rw [operand, hws w rfl, if_neg (by simp)]

namespace Reads

variable {level : Nat} {c : Chain} {ws : List (List (Item Flat))}

theorem phrase_eq (h : Reads a level c ws) : phrase a ws = c.whole := by
  rw [← h.whole_eq]
  unfold phrase
  split
  · next w =>
    have hw : isOperator a w = false := h.head_not_operator w rfl
    rw [chain_eq_single (by simpa using hw), hw, if_neg (by simp), Chain.whole_single]
  · rfl

/-- Nothing but an operand. -/
theorem of_operand (hws : ∀ w ∈ ws, isOperator a w = false)
    (hminus : 3 ≤ level → ∀ w ∈ ws.head?, isNegated w = false) (hword : 4 ≤ level → ∃ w, ws = [w]) :
    Reads a level (.single (operand a ws)) ws :=
  have hchain := chain_eq_single hws
  ⟨by rw [hchain], fun _ => hchain, fun w hw => hws w (List.mem_of_mem_head? hw), fun _ => hws,
    hminus, hword⟩

theorem application_eq (h : Reads a level c ws) (hlevel : 3 ≤ level) :
    application a ws = c.whole := by
  rw [← h.whole_eq, chain_eq_single (h.forall_not_operator hlevel), Chain.whole_single,
    operand_eq_application (h.head_not_negated hlevel)]

theorem word {w : List (Item Flat)} (hw : isOperator a w = false) (hminus : isNegated w = false)
    (level : Nat) : Reads a level (.single (atom a w)) [w] := by
  have hreads : Reads a level (.single (operand a [w])) [w] :=
    .of_operand (by simpa using hw) (by simpa using fun _ => hminus) fun _ => ⟨w, rfl⟩
  rwa [operand_eq_application (by simpa using hminus)] at hreads

theorem whole (e : Flat) (level : Nat) : Reads a level (.single e) [[.whole e]] := by
  change Reads a level (.single (atom a [.whole e])) _
  exact word rfl rfl level

/-- In parentheses a chain is an operand. -/
theorem whole_chain (c : Chain) (hlevel : 3 ≤ level) : Reads a level c [[.whole c.whole]] := by
  have hreads := whole (a := a) c.whole level
  exact ⟨hreads.whole_eq, by omega, hreads.head_not_operator, hreads.forall_not_operator,
    hreads.head_not_negated, hreads.exists_word⟩

theorem app {f arg : Chain} {w : List (Item Flat)} (hf : Reads a 3 f ws) (hne : ws ≠ [])
    (harg : Reads a 4 arg [w]) (hlevel : level ≤ 3) :
    Reads a level (.single (.app f.whole arg.whole)) (ws ++ [w]) := by
  have happlication : application a (ws ++ [w]) = .app f.whole arg.whole := by
    rw [← hf.application_eq le_rfl, ← harg.application_eq (by omega)]
    exact applied_append hne w
  have hhead : ∀ v ∈ (ws ++ [w]).head?, isNegated v = false := by
    rw [List.head?_append_of_ne_nil _ hne]
    exact hf.head_not_negated le_rfl
  rw [← happlication, ← operand_eq_application hhead]
  apply of_operand _ (fun _ => hhead) (by omega)
  exact List.forall_mem_append.mpr ⟨hf.forall_not_operator le_rfl,
    harg.forall_not_operator (by omega)⟩

theorem neg {w : List (Item Flat)} (h : Reads a 3 c (w :: ws)) (hne : w ≠ []) (hlevel : level ≤ 2) :
    Reads a level (.single (.neg c.whole)) ((.chr '-' :: w) :: ws) := by
  have hoperator : isOperator a (.chr '-' :: w) = isOperator a w := by
    obtain ⟨i, is, rfl⟩ := List.exists_cons_of_ne_nil hne
    rw [isOperator, isOperator, List.getLast?_cons_cons]
  have hoperand : operand a ((.chr '-' :: w) :: ws) = .neg c.whole := by
    rw [← h.application_eq le_rfl]
    rfl
  rw [← hoperand]
  apply of_operand _ (by omega) (by omega)
  rw [List.forall_mem_cons, hoperator]
  exact List.forall_mem_cons.mp (h.forall_not_operator le_rfl)

theorem infixApp {left right : Chain} {w : List (Item Flat)} {vs : List (List (Item Flat))}
    (hleft : Reads a 2 left ws) (hne : ws ≠ []) (hw : isOperator a w = true)
    (hright : Reads a 1 right vs) (hlevel : level ≤ 2) :
    Reads a level ⟨left.operands ++ right.operands,
      left.operators ++ operator a w :: right.operators⟩ (ws ++ w :: vs) := by
  have hchain : chain a (ws ++ w :: vs) =
      ⟨left.operands ++ right.operands, left.operators ++ operator a w :: right.operators⟩ := by
    rw [← hleft.chain_eq le_rfl, ← hright.chain_eq (by omega), chain,
      List.splitOnP_append_cons _ _ hw, List.map_append, List.filter_append,
      List.filter_cons_of_pos hw, List.map_append, List.map_cons]
    rfl
  refine ⟨by rw [hchain], fun _ => hchain, ?_, by omega, by omega, by omega⟩
  rw [List.head?_append_of_ne_nil _ hne]
  exact hleft.head_not_operator

end Reads

/-- A document with words that are read as the expression with this chain. -/
abbrev Shows (a : Alphabet) (level : Nat) (c : Chain) : Doc → Prop :=
  (grammar a).Shows a (Reads a level c)

theorem readsOperators : (grammar a).ReadsOperators a := by
  intro q hq hsymbolic
  obtain ⟨c, hlast, hc⟩ := exists_getLast?_of_isSymbolic hq hsymbolic
  have hoperator : isOperator a ((letters q).map .chr) = true := by
    simp [isOperator, hlast, hc]
  change (if isOperator a ((letters q).map .chr) then _ else _) = _
  rw [hoperator, if_pos rfl, nameOf_chars]
  rfl

/-- The word of a name is neither an operator nor a number. -/
theorem not_operator_nameTrees {q : QName} (hq : a.IsTerm q) {w : List (Item Flat)}
    (hw : w = (grammar a).reader.items (nameTrees q)) :
    isOperator a w = false ∧ isNegated w = false ∧ isNumber w = false := by
  rcases Grammar.items_nameTrees_cases (grammar a).reader q with ⟨x, hitems⟩ | ⟨s, hname, hitems⟩
  · simp [hw, hitems, isOperator, isNegated, isNumber]
  · obtain ⟨c, hlast, hc⟩ := exists_getLast?_letters hq.isQName hname
    obtain ⟨d, hhead, hd⟩ := exists_head?_letters hq hname
    have htick : c ≠ '\x60' := IsMark.ne_of_isWord (isMark_of_ascii (by decide)) hc
    have hminus : d ≠ '-' := Alphabet.ne_of_letter hd (by decide)
    simp [hw, hitems, isOperator, isNegated, isNumber, hlast, hhead, Alphabet.isSymbol_of_isWord hc,
      htick, hminus, Alphabet.isDigit_of_letter hd]

theorem isOperator_infixTrees {q : QName} (hq : a.IsQName q) :
    isOperator a ((grammar a).reader.items (infixTrees q)) = true := by
  rcases Grammar.items_infixTrees_cases (grammar a).reader q with ⟨w, hitems⟩ | ⟨hsymbolic, hitems⟩
  · rw [hitems, isOperator, List.getLast?_concat]
    simp
  · obtain ⟨c, hlast, hc⟩ := exists_getLast?_of_isSymbolic hq hsymbolic
    simp [hitems, isOperator, hlast, hc]

theorem operator_infixDoc {op : QOp} (hop : op.Lexical a) : ∃ w, Worded a op.doc [w] ∧
    isOperator a ((grammar a).reader.items w) = true ∧
    operator a ((grammar a).reader.items w) = op.plain := by
  have hname : a.IsQName op.name ∧ operatorOf (named a (plain op.name)) = op.plain := by
    cases hop with
    | var hname hq =>
      exact ⟨⟨hname.isName, hq⟩, by simp [named, QOp.name, hname.isCon_eq, operatorOf, QOp.plain]⟩
    | con hname hq =>
      exact ⟨⟨hname.isName, hq⟩, by simp [named, QOp.name, hname.isCon_eq, operatorOf, QOp.plain]⟩
  have hread := Grammar.infixOf_infixTrees readsOperators hname.1
  exact ⟨_, worded_infixDoc hname.1, isOperator_infixTrees hname.1,
    (congrArg operatorOf hread).trans hname.2⟩

theorem shows_name {q : QName} (hq : a.IsTerm q) (level : Nat) :
    Shows a level (.single (named a (plain q))) q.doc := by
  obtain ⟨hoperator, hminus, hnumber⟩ := not_operator_nameTrees hq rfl
  have hatom : atom a ((grammar a).reader.items (nameTrees q)) = named a (plain q) := by
    rw [atom, hnumber, if_neg (by simp)]
    exact Grammar.nameOf_nameTrees readsOperators hq.isQName
  refine ⟨_, worded_doc hq.isQName, ?_⟩
  rw [← hatom]
  exact .word hoperator hminus level

/-- Parentheses where the level is too high. -/
theorem shows_parensIf {d : Doc} {c : Chain} {level bound : Nat} (hbound : 2 ≤ bound)
    (hd : ∀ level ≤ bound, Shows a level c d) :
    Shows a level c (parensIf (bound + 1 ≤ level) d) := by
  apply Grammar.Shows.parensIf (fun _ => hd 0 (Nat.zero_le _)) (fun _ h => h.phrase_eq)
  · intro hlevel
    have hlevel' : bound < level := by simpa using hlevel
    exact .whole_chain c (by omega)
  · intro hlevel
    exact hd level (by simpa using hlevel)

theorem reads_number (n : Nat) (level : Nat) :
    Reads a level (.single (.constant (.number n))) [(Nat.toDigits 10 n).map .chr] := by
  obtain ⟨c, d, hhead, hlast, hc, hd⟩ := exists_ends_toDigits n
  have hatom : atom a ((Nat.toDigits 10 n).map .chr) = .constant (.number n) := by
    simp [atom, isNumber, hhead, hc, Nat.ofDigitChars_toDigits]
  rw [← hatom]
  apply Reads.word
  · have hword : a.isWord d = true := isWord_of_isDigit hd
    have htick : d ≠ '\x60' := IsMark.ne_of_isWord (isMark_of_ascii (by decide)) hword
    simp [isOperator, hlast, Alphabet.isSymbol_of_isWord hword, htick]
  · have hminus : c ≠ '-' := by
      rintro rfl
      contradiction
    simp [isNegated, hhead, hminus]

theorem shows_int (n : Int) (level : Nat) :
    Shows a level (.single (.ofInt n)) (parensIf (3 ≤ level && n < 0) (Doc.int n)) := by
  have hworded := worded_int (a := a) n
  have hnumber := reads_number (a := a) n.natAbs
  rw [numberTrees] at hworded
  rw [Flat.ofInt]
  split_ifs at hworded ⊢ with hn
  · have hneg : ∀ level ≤ 2, Shows a level (.single (.neg (.constant (.number n.natAbs))))
        (Doc.int n) := by
      intro level hlevel
      refine ⟨_, hworded, ?_⟩
      simpa using (hnumber 3).neg (by simp) hlevel
    rw [decide_eq_true hn, Bool.and_true]
    exact shows_parensIf le_rfl hneg
  · rw [decide_eq_false hn, Bool.and_false]
    exact ⟨_, hworded, by simpa using hnumber level⟩

end Reading.ExprReader

namespace Syntax

open ExprReader

variable {a : Alphabet}

theorem Expr.Lexical.shows {e : Expr} (he : e.Lexical a) (m : Mode) (level : Nat) :
    (e.pretty m level).Meets (Shows a level e.chain) := by
  induction he generalizing level with
  | @var q hname hq =>
    rw [Expr.pretty, Expr.chain]
    exact .pure (by simpa [named, hname.isCon_eq] using shows_name ⟨.inl hname, hq⟩ level)
  | @con q hname hq =>
    rw [Expr.pretty, Expr.chain]
    exact .pure (by simpa [named, hname.isCon_eq] using shows_name ⟨.inr hname, hq⟩ level)
  | char c =>
    have hparens : (3 ≤ level && Literal.isNegative (.char c)) = false := Bool.and_false _
    rw [Expr.pretty, Expr.chain, hparens]
    exact .pure ⟨_, worded_char c, .whole _ level⟩
  | string s =>
    have hparens : (3 ≤ level && Literal.isNegative (.string s)) = false := Bool.and_false _
    rw [Expr.pretty, Expr.chain, hparens]
    exact .pure ⟨_, worded_string s, .whole _ level⟩
  | int n =>
    rw [Expr.pretty, Expr.chain]
    exact .pure (shows_int n.val level)
  | infixApp _ hop _ hleft hright =>
    rw [Expr.pretty, Expr.chain]
    refine .bind (hleft 2) fun d hd => .bind (hright 1) fun e he =>
      .pure (shows_parensIf le_rfl fun level hlevel => ?_)
    obtain ⟨ws, hws, hreads⟩ := hd
    obtain ⟨vs, hvs, hreads'⟩ := he
    obtain ⟨w, hw, hoperator, hplain⟩ := operator_infixDoc hop
    refine ⟨_, worded_fillOnside (.cons hws (.cons hw (.cons hvs .nil))) m (by simp), ?_⟩
    simpa [hplain] using hreads.infixApp (by simpa using hws.ne_nil) hoperator hreads' hlevel
  | app _ _ hf harg =>
    rw [Expr.pretty, Expr.chain]
    refine .bind (hf 3) fun d hd => .bind (harg 4) fun e he =>
      .pure (shows_parensIf (by omega) fun level hlevel => ?_)
    obtain ⟨ws, hws, hreads⟩ := hd
    obtain ⟨vs, hvs, hreads'⟩ := he
    obtain ⟨w, hw⟩ := hreads'.exists_word le_rfl
    refine ⟨_, worded_fillOnside (.cons hws (.cons hvs .nil)) m (by simp), ?_⟩
    rw [hw] at hreads'
    simpa [hw] using hreads.app (by simpa using hws.ne_nil) hreads' hlevel
  | neg _ ih =>
    rw [Expr.pretty, Expr.chain]
    refine .bind (ih 3) fun d hd => .pure (shows_parensIf le_rfl fun level hlevel => ?_)
    obtain ⟨ws, hws, hreads⟩ := hd
    obtain ⟨w, ws, rfl⟩ := List.exists_cons_of_ne_nil hws.ne_nil
    refine ⟨_, .mark (isMark_of_ascii (by decide)) (by decide) hws, ?_⟩
    simpa using hreads.neg ((hws.isWord w (by simp)).items_solid _).1 hlevel
  | tuple _ ih =>
    rw [Expr.pretty, Expr.chain, Expr.pretties_eq, Expr.flats_eq]
    refine .guard fun hlength => .bind (.mapM_forall₂ fun e he => ih e he 0) fun ds hds => .pure ?_
    exact .parenList hds (fun e ws h => h.phrase_eq) m hlength (.whole _ level)
  | @list elems _ ih =>
    rw [Expr.pretty, Expr.chain, Expr.pretties_eq, Expr.flats_eq]
    refine .bind (.mapM_forall₂ fun e he => ih e he 0) fun ds hds => .pure ?_
    apply Grammar.Shows.bracketList hds (fun e ws h => h.phrase_eq) m
    cases elems with
    | nil => exact .whole _ level
    | cons e es => exact .whole _ level
  | paren _ ih =>
    rw [Expr.pretty, Expr.chain]
    exact .bind (ih 0) fun d hd => .pure (hd.parens (fun _ h => h.phrase_eq) (.whole _ level))

/-- Expressions without blocks that have the same printed text, but for the spaces and line breaks
between the words, are the same up to parentheses and to how the operators of a chain associate. -/
theorem printed_expr_determines_chains (a : Alphabet) {e e' : Expr}
    (hwell : (Node.expr e).WellFormed) (hwell' : (Node.expr e').WellFormed) (he : e.Lexical a)
    (he' : e'.Lexical a) (style style' : Style) (m m' : Mode) (level level' : Nat) :
    ∃ cs cs', (Node.expr e).chunks style m level = .ok cs ∧
      (Node.expr e').chunks style' m' level' = .ok cs' ∧
      (Chunk.squeezed cs = Chunk.squeezed cs' → e.flat = e'.flat) := by
  have hphrase : ∀ level c ws, Reads a level c ws → (grammar a).phrase ws = c.whole :=
    fun _ _ _ h => h.phrase_eq
  exact Grammar.same_of_squeezed hwell (he.shows m level) (hphrase _ _) hwell' (he'.shows m' level')
    (hphrase _ _)
    style style'

/-- Two ways to nest the operators of a chain, with and without parentheses, the prelude and the
sugar for lists. -/
theorem printed_cons_of_sum_determines_chains :
    let var (s : String) := Expr.var (.ofIdent s)
    let plus := QOp.var (.unqualified (.symbol "+"))
    let e :=
      Expr.infixApp (.infixApp (var "x") plus (.app (var "f") (.paren (.neg (var "y")))))
        (.con (.ofSpecial .cons))
      (.list [])
    let e' := Expr.infixApp (var "x") plus (.infixApp (.app (var "f") (.neg (var "y")))
      (.con (.unqualified (.special .cons))) (.con (.ofSpecial .list)))
    ((Node.expr e).WellFormed ∧ e.Lexical .basic) ∧
      ((Node.expr e').WellFormed ∧ e'.Lexical .basic) ∧
      ∃ cs cs', (Node.expr e).chunks { lineLength := 4 } {} 0 = .ok cs ∧
        (Node.expr e').chunks {} { layout := .none } 0 = .ok cs' ∧
        Chunk.squeezed cs = Chunk.squeezed cs' ∧ e.flat = e'.flat := by
  intro var plus e e'
  have hwell : (Node.expr e).WellFormed ∧ (Node.expr e').WellFormed := by
    constructor <;>
      simp [e, e', var, plus, QName.ofSpecial, QName.ofIdent, QName.qualified, QName.unqualified,
        Node.wellFormed_iff, Node.lack?, Node.children, Expr.children, QName.children, QOp.name]
  have hvar : ∀ s, Alphabet.basic.IsVar (.ident s) → (var s).Lexical .basic := fun s hs =>
    .var hs (Alphabet.isQualified_unqualified _)
  have hx : (var "x").Lexical .basic := hvar _ (.ident (by decide) (by decide))
  have hf : (var "f").Lexical .basic := hvar _ (.ident (by decide) (by decide))
  have hy : (var "y").Lexical .basic := hvar _ (.ident (by decide) (by decide))
  have hplus : plus.Lexical .basic :=
    .var (.symbol (by decide) (by decide) (by decide)) (Alphabet.isQualified_unqualified _)
  have hlex : e.Lexical .basic ∧ e'.Lexical .basic :=
    ⟨.infixApp (.infixApp hx hplus (.app hf (.paren (.neg hy))))
        (.con (.special (by decide) (by decide)) (Alphabet.isQualified_ofSpecial _))
        (.list (by simp)),
      .infixApp hx hplus (.infixApp (.app hf (.neg hy))
        (.con (.special (by decide) (by decide)) (Alphabet.isQualified_unqualified _))
        (.con (.special (by decide) (by decide)) (Alphabet.isQualified_ofSpecial _)))⟩
  obtain ⟨cs, cs', hcs, hcs', hsame⟩ :=
    printed_expr_determines_chains .basic hwell.1 hwell.2 hlex.1 hlex.2
    { lineLength := 4 } {} {} { layout := .none } 0 0
  have htext : ((Node.expr e).chunks { lineLength := 4 } {} 0).map Chunk.squeezed =
      ((Node.expr e').chunks {} { layout := .none } 0).map Chunk.squeezed := by decide +kernel
  rw [hcs, hcs'] at htext
  exact ⟨⟨hwell.1, hlex.1⟩, ⟨hwell.2, hlex.2⟩, cs, cs', hcs, hcs', Except.ok.inj htext,
    hsame (Except.ok.inj htext)⟩

end Syntax

end Offside
