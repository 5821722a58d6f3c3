import Offside.Proofs.Composed
import Offside.Proofs.Tokens

/-!
# Every layout prints the same tokens

A well-formed tree is printed without a fault in every mode, and its document is steady: the three
layouts with braces print the same tokens, and the offside layout prints these without the marks of
blocks. This holds of every plan whose trees are printed steadily.
-/
namespace Offside

open Doc Syntax

namespace Syntax

theorem tokens_row (m : Mode) (arrangement : Row) (ds : List Doc) :
    (arrangement.doc m ds).tokens = ds.flatMap Doc.tokens :=
  tokens_eq_flatMap (m.leaves_row arrangement ds)

theorem steady_row (arrangement : Row) {ds : List (Mode → Doc)} (hds : ∀ d ∈ ds, Steady d) :
    Steady fun m => arrangement.doc m (ds.map (· m)) := by
  obtain ⟨ts, hts, htokens⟩ := Steady.flatMap hds
  exact ⟨ts, hts, fun m => by rw [tokens_row, htokens]⟩

theorem keeps_steady : Sketch.Keeps (fun _ => True) Steady Steady where
  nothing := .const .empty
  word _ := .const _
  tree hd := hd
  beside spaced hl hr := hl.beside hr spaced
  upon hu hl := (hu.beside hl true).of_tokens_eq fun m => by simp
  row arrangement _ hds := steady_row arrangement hds
  clauses hds := Steady.clauses hds
  block indent _ hds := Steady.block hds indent
  wheres hds := Steady.whereClause hds
  topLevel {keyword header ds} _ hheader hds := by
    have hwords : ∀ d ∈ (fun _ => .text keyword) :: header, Steady d :=
      List.forall_mem_cons.mpr ⟨.const _, hheader⟩
    exact Steady.topLevel hds (steady_row .sepFirst hwords)
  introduce t d hd _ := hd.of_tokens_eq fun m => by
    unfold Node.introduce
    cases t.mark? <;> cases t.isSpaced <;> simp

/-- A well-formed tree is printed steadily, at every level. -/
theorem Node.WellFormed.steady {t : Node} (ht : t.WellFormed) (level : Nat) :
    Steady fun m => (t.pretty m level).value :=
  keeps_steady.pretty phrasing_true ht t.worded_true level

/-- The layouts with braces print a well-formed tree with the same tokens, whatever the other
settings are. The offside layout prints these without the marks that open, close and separate the
members of a module, of a block and of the clauses of a function. -/
theorem layout_keeps_tokens {t : Node} (ht : t.WellFormed) (level : Nat) :
    ∃ ts : List Token, Token.Marked ts ∧ (∀ s, .mark s ∈ ts → s ∈ ["\x7b", "\x7d", ";", " "]) ∧
      (∀ m : Mode, m.layout ≠ .offside → ∃ d, t.toDoc m level = .ok d ∧
        d.tokens = ts.map Token.text) ∧
      ∀ m : Mode, m.layout = .offside →
        ∃ d, t.toDoc m level = .ok d ∧ d.tokens = (ts.filter Token.isWord).map Token.text := by
  obtain ⟨ts, hts, htokens⟩ := ht.steady level
  have hdoc := fun m => (ht.toDoc_eq m level).2
  refine ⟨ts, hts, fun s hs => hts.mark_mem hs, fun m hm => ⟨_, hdoc m, ?_⟩,
    fun m hm => ⟨_, hdoc m, ?_⟩⟩
  · rw [htokens, Layout.written_of_ne hm]
  · rw [htokens, hm]
    rfl

theorem do_block_keeps_tokens :
    let f (pat : Pat) (line : UInt32) : Match :=
      .mk { file := "M", line } (.ident "f") [pat] (.unguarded .wildcard) []
    let t : Node :=
      .expr (.doBlock [.letStmt [.funBind [f .wildcard 7, f (.neg .wildcard) 8]],
        .qualifier .wildcard])
    t.WellFormed ∧ ∃ ts : List Token,
      (ts.map Token.text = ["do", "\x7b", " ", "let", "\x7b", " ", "f", "_", "=", "_", ";", "f",
      "(", "-", "_", ")", "=", "_", "\x7d", ";", "_", "\x7d"]) ∧
      ∀ m : Mode, ∃ d, t.toDoc m 0 = .ok d ∧
        d.tokens = if m.layout = .offside then (ts.filter Token.isWord).map Token.text else
        ts.map Token.text := by
  intro f t
  have ht : t.WellFormed := by
    simp [t, f, Node.wellFormed_iff, Node.lack?, Node.children, Expr.children, Stmt.children,
      Decl.children, Match.children, Rhs.children, Pat.children]
  obtain ⟨ts, -, -, hbraces, hoffside⟩ := layout_keeps_tokens ht 0
  refine ⟨ht, ts, ?_, fun m => ?_⟩
  · obtain ⟨d, hd, htokens⟩ := hbraces { layout := .none } (by decide)
    rw [← htokens, ← Except.ok.inj hd]
    decide
  · split_ifs with hm
    · exact hoffside m hm
    · exact hbraces m hm

end Syntax

end Offside
