import Offside.Proofs.Leaves
import Offside.Proofs.Subtrees

/-!
# Tokens and layouts

The tokens of a document are its visible texts without the pragmas that name lines. The layouts
differ in the marks of blocks: braces around the members, a space after the opening brace, and
semicolons between the members. The offside layout leaves the marks out and the other three write
them all. Everything else that a mode decides is about lines and spaces, so what a combinator makes
of steady documents is steady again.
-/
namespace Offside

open Doc Syntax

/-- Whether a text is a pragma that names a line. -/
def isPragma (s : String) : Bool :=
  "\x7b-# LINE ".toList.isPrefixOf s.toList && " #-\x7d".toList.isSuffixOf s.toList

/-- The texts of a document that are neither empty nor pragmas. -/
def Doc.tokens (d : Doc) : List String := d.leaves.filter fun s => !s.isEmpty && !isPragma s

/-- A text of a printed tree: one that every layout writes, or the mark of a block. -/
inductive Token where
  | word (s : String)
  | mark (s : String)
deriving DecidableEq, Repr

namespace Token

def text : Token → String
  | .word s | .mark s => s

def isWord : Token → Bool
  | .word _ => true
  | .mark _ => false

/-- The members of a block with semicolons between them. -/
def separated (members : List (List Token)) : List Token := List.intercalate [.mark ";"] members

/-- Where marks stand: around and between the members of a block, around and between those of a
module, and between the clauses of a function. -/
inductive Marked : List Token → Prop where
  | words (ss : List String) : Marked (ss.map .word)
  | append {ts us : List Token} (left : Marked ts) (right : Marked us) : Marked (ts ++ us)
  | block {members : List (List Token)} (marked : ∀ ts ∈ members, Marked ts) :
      Marked ([.mark "\x7b", .mark " "] ++ separated members ++ [.mark "\x7d"])
  | module {members : List (List Token)} (marked : ∀ ts ∈ members, Marked ts) :
      Marked ([.mark "\x7b"] ++ separated members ++ [.mark "\x7d"])
  | clauses {members : List (List Token)} (marked : ∀ ts ∈ members, Marked ts) :
      Marked (separated members)

theorem mem_separated {t : Token} {members : List (List Token)} (h : t ∈ separated members) :
    t = .mark ";" ∨ ∃ ts ∈ members, t ∈ ts := by
  induction members with
  | nil => simp [separated] at h
  | cons ts members ih =>
    cases members with
    | nil => exact .inr ⟨ts, by simp, by simpa [separated] using h⟩
    | cons us members =>
      rw [separated, List.intercalate_cons_cons, List.mem_append, List.mem_append] at h
      rcases h with (h | h) | h
      · exact .inr ⟨ts, by simp, h⟩
      · exact .inl (List.mem_singleton.mp h)
      · obtain h | ⟨vs, hvs, h⟩ := ih h
        · exact .inl h
        · exact .inr ⟨vs, List.mem_cons_of_mem _ hvs, h⟩

/-- The marks are braces, semicolons and single spaces. -/
theorem Marked.mark_mem {ts : List Token} (h : Marked ts) {s : String} (hs : .mark s ∈ ts) :
    s ∈ ["\x7b", "\x7d", ";", " "] := by
  have hseparated : ∀ members : List (List Token), (∀ ts ∈ members, .mark s ∈ ts →
      s ∈ ["\x7b", "\x7d", ";", " "]) →
      .mark s ∈ separated members → s ∈ ["\x7b", "\x7d", ";", " "] := by
    intro members ih hs
    obtain h | ⟨ts, hts, h⟩ := mem_separated hs
    · simp_all
    · exact ih ts hts h
  induction h with
  | words ss => simp at hs
  | append left right ihl ihr => exact (List.mem_append.mp hs).elim ihl ihr
  | block marked ih =>
    simp only [List.mem_append] at hs
    rcases hs with (hs | hs) | hs
    · simp at hs; grind
    · exact hseparated _ ih hs
    · simp_all
  | module marked ih =>
    simp only [List.mem_append] at hs
    rcases hs with (hs | hs) | hs
    · simp_all
    · exact hseparated _ ih hs
    · simp_all
  | clauses marked ih => exact hseparated _ ih hs

end Token

/-- The texts that a layout writes of some tokens. -/
def Layout.written (l : Layout) (ts : List Token) : List String :=
  match l with
  | .offside => (ts.filter Token.isWord).map Token.text
  | _ => ts.map Token.text

namespace Layout

theorem written_of_ne {l : Layout} (hl : l ≠ .offside) (ts : List Token) :
    l.written ts = ts.map Token.text := by
  cases l with
  | offside => exact absurd rfl hl
  | _ => rfl

@[simp] theorem written_nil (l : Layout) : l.written [] = [] := by cases l <;> rfl

@[simp] theorem written_append (l : Layout) (ts us : List Token) :
    l.written (ts ++ us) = l.written ts ++ l.written us := by
  cases l <;> simp [written]

@[simp] theorem written_words (l : Layout) (ss : List String) : l.written (ss.map .word) = ss := by
  have hword : Token.isWord ∘ Token.word = fun _ => true := rfl
  have htext : Token.text ∘ Token.word = id := rfl
  cases l <;> simp [written, List.filter_map, hword, htext]

theorem written_separated_offside (members : List (List Token)) :
    Layout.offside.written (Token.separated members) =
      (members.map Layout.offside.written).flatten := by
  induction members with
  | nil => rfl
  | cons ts members ih =>
    cases members with
    | nil => simp [Token.separated]
    | cons us members =>
      rw [Token.separated, List.intercalate_cons_cons, written_append, written_append,
        ← Token.separated, ih]
      simp [written, Token.isWord]

theorem written_separated {l : Layout} (hl : l ≠ .offside) (members : List (List Token)) :
    l.written (Token.separated members) = List.intercalate [";"] (members.map l.written) := by
  induction members with
  | nil => simp [Token.separated]
  | cons ts members ih =>
    cases members with
    | nil => simp [Token.separated]
    | cons us members =>
      rw [List.map_cons, List.map_cons, List.intercalate_cons_cons, ← List.map_cons, ← ih,
        Token.separated, List.intercalate_cons_cons, written_append, written_append,
        written_of_ne hl [.mark ";"]]
      rfl

end Layout

namespace Doc

@[simp] theorem tokens_empty : tokens .empty = [] := rfl

theorem tokens_eq_flatMap {d : Doc} {ds : List Doc} (h : d.leaves = ds.flatMap leaves) :
    d.tokens = ds.flatMap tokens := by
  rw [tokens, h, List.filter_flatMap]
  rfl

@[simp] theorem tokens_beside (l : Doc) (spaced : Bool) (r : Doc) :
    (l.beside spaced r).tokens = l.tokens ++ r.tokens := by
  simp [tokens]

@[simp] theorem tokens_append (l r : Doc) : (l ++ r).tokens = l.tokens ++ r.tokens :=
  tokens_beside l false r

@[simp] theorem tokens_above (u l : Doc) : (u.above l).tokens = u.tokens ++ l.tokens := by
  simp [tokens]

@[simp] theorem tokens_nest (k : Int) (d : Doc) : (d.nest k).tokens = d.tokens := by
  simp [tokens]

@[simp] theorem tokens_hsep (ds : List Doc) : (hsep ds).tokens = ds.flatMap tokens :=
  tokens_eq_flatMap (leaves_hsep ds)

@[simp] theorem tokens_vcat (ds : List Doc) : (vcat ds).tokens = ds.flatMap tokens :=
  tokens_eq_flatMap (leaves_vcat ds)

theorem flatMap_tokens_punctuate (separator : Doc) (ds : List Doc) :
    (punctuate separator ds).flatMap tokens =
      List.intercalate separator.tokens (ds.map tokens) := by
  fun_induction punctuate separator ds with
  | case1 => rfl
  | case2 d => simp
  | case3 d ds h ih =>
    obtain ⟨e, es, rfl⟩ := List.exists_cons_of_ne_nil h
    rw [List.flatMap_cons, ih, tokens_append, List.map_cons, List.map_cons, List.map_cons,
      List.intercalate_cons_cons]

theorem tokens_linePragma (line : Int) (file : String) :
    (Mode.linePragma line file).tokens = [] := by
  have hpragma : ∀ s : String, isPragma ("\x7b-# LINE " ++ s ++ " #-\x7d") = true := by
    intro s
    rw [isPragma, Bool.and_eq_true, List.isPrefixOf_iff_prefix, List.isSuffixOf_iff_suffix,
      String.toList_append, String.toList_append]
    exact ⟨(List.prefix_append _ _).trans (List.prefix_append _ _), List.suffix_append _ _⟩
  have h := hpragma (Number.decimalText line ++ " " ++ Text.stringLiteral file)
  simp only [← String.append_assoc] at h
  simp [tokens, Mode.linePragma, leaves, h]

end Doc

namespace Mode

variable (m : Mode) (ds : List Doc)

@[simp] theorem tokens_lines : (m.lines ds).tokens = ds.flatMap tokens :=
  tokens_eq_flatMap (m.leaves_lines ds)

@[simp] theorem tokens_fillOnside : (m.fillOnside ds).tokens = ds.flatMap tokens :=
  tokens_eq_flatMap (m.leaves_fillOnside ds)

@[simp] theorem tokens_aboveOrBeside (u l : Doc) :
    (m.aboveOrBeside u l).tokens = u.tokens ++ l.tokens := by
  simp [tokens]

@[simp] theorem tokens_blankLine (d : Doc) : (m.blankLine d).tokens = d.tokens := by
  unfold blankLine
  split_ifs
  · exact tokens_above _ _
  · rfl

@[simp] theorem tokens_markLine (loc : Location) (d : Doc) :
    (m.markLine loc d).tokens = d.tokens := by
  unfold markLine
  split_ifs
  · rfl
  · rw [tokens_above, tokens_linePragma, List.nil_append]
  · rw [appendSpace, tokens_beside, tokens_linePragma, List.nil_append]

/-- The tokens of the members of a block, with the semicolons that the layout puts between them. -/
def memberTokens : List String :=
  if m.layout = .offside then ds.flatMap tokens else (punctuate semi ds).flatMap tokens

theorem tokens_clauses : (m.clauses ds).tokens = m.memberTokens ds := by
  unfold clauses memberTokens
  cases m.layout <;> simp

theorem tokens_block (indent : Nat) : (m.block indent ds).tokens =
    m.layout.written [.mark "\x7b", .mark " "] ++ m.memberTokens ds ++
      m.layout.written [.mark "\x7d"] := by
  have hmarks : lbrace.tokens = ["\x7b"] ∧ space.tokens = [" "] ∧ rbrace.tokens = ["\x7d"] := by
    decide
  unfold block memberTokens braces
  cases m.layout <;> simp [hmarks, Layout.written, Token.isWord, Token.text]

theorem tokens_topLevel (header : Doc) : (m.topLevel header ds).tokens =
    header.tokens ++ (m.layout.written [.mark "\x7b"] ++ m.memberTokens ds ++
      m.layout.written [.mark "\x7d"]) := by
  have hmarks : lbrace.tokens = ["\x7b"] ∧ rbrace.tokens = ["\x7d"] := by decide
  unfold topLevel memberTokens braces appendSpace
  cases m.layout <;> simp [hmarks, Layout.written, Token.isWord, Token.text]

end Mode

/-- The documents have the same tokens in all modes, but for the marks that the offside layout
leaves out. -/
def Steady (d : Mode → Doc) : Prop :=
  ∃ ts, Token.Marked ts ∧ ∀ m, (d m).tokens = m.layout.written ts

namespace Steady

variable {d e : Mode → Doc}

theorem of_tokens_eq (hd : Steady d) (h : ∀ m, (e m).tokens = (d m).tokens) : Steady e := by
  obtain ⟨ts, hts, htokens⟩ := hd
  exact ⟨ts, hts, fun m => by rw [h, htokens]⟩

/-- A document that does not depend on the mode. -/
theorem const (d : Doc) : Steady fun _ => d := ⟨d.tokens.map .word, .words _, by simp⟩

theorem beside (hd : Steady d) (he : Steady e) (spaced : Bool) :
    Steady fun m => (d m).beside spaced (e m) := by
  obtain ⟨ts, hts, htokens⟩ := hd
  obtain ⟨us, hus, htokens'⟩ := he
  exact ⟨ts ++ us, .append hts hus, fun m => by simp [htokens, htokens']⟩

end Steady

section

variable {ds : List (Mode → Doc)} (hds : ∀ d ∈ ds, Steady d)
include hds

theorem Steady.exists_members : ∃ members : List (List Token), (∀ ts ∈ members, Token.Marked ts) ∧
    ∀ m : Mode, (ds.map (· m)).map tokens = members.map m.layout.written := by
  induction ds with
  | nil => exact ⟨[], by simp, by simp⟩
  | cons d ds ih =>
    obtain ⟨⟨ts, hts, htokens⟩, hds⟩ := List.forall_mem_cons.mp hds
    obtain ⟨members, hmembers, hmap⟩ := ih hds
    exact ⟨ts :: members, List.forall_mem_cons.mpr ⟨hts, hmembers⟩,
      fun m => by simp [htokens, ← hmap]⟩

theorem Steady.flatMap :
    ∃ ts, Token.Marked ts ∧ ∀ m, (ds.map (· m)).flatMap tokens = m.layout.written ts := by
  induction ds with
  | nil => exact ⟨[], .words [], by simp⟩
  | cons d ds ih =>
    obtain ⟨⟨ts, hts, htokens⟩, hds⟩ := List.forall_mem_cons.mp hds
    obtain ⟨us, hus, hflat⟩ := ih hds
    exact ⟨ts ++ us, .append hts hus, fun m => by simp [htokens, ← hflat]⟩

theorem Steady.memberTokens : ∃ members : List (List Token), (∀ ts ∈ members, Token.Marked ts) ∧
    ∀ m : Mode, m.memberTokens (ds.map (· m)) = m.layout.written (Token.separated members) := by
  obtain ⟨members, hmembers, hmap⟩ := exists_members hds
  refine ⟨members, hmembers, fun m => ?_⟩
  unfold Mode.memberTokens
  split_ifs with hm
  · rw [hm, Layout.written_separated_offside, ← hm, ← hmap, List.flatMap_def]
  · rw [flatMap_tokens_punctuate, hmap, Layout.written_separated hm]
    rfl

theorem Steady.clauses : Steady fun m => m.clauses (ds.map (· m)) := by
  obtain ⟨members, hmembers, hwritten⟩ := memberTokens hds
  exact ⟨_, .clauses hmembers, fun m => by rw [Mode.tokens_clauses, hwritten]⟩

theorem Steady.block (indent : Mode → Nat) : Steady fun m => m.block (indent m) (ds.map (· m)) := by
  obtain ⟨members, hmembers, hwritten⟩ := memberTokens hds
  refine ⟨_, .block hmembers, fun m => ?_⟩
  rw [Mode.tokens_block, hwritten, Layout.written_append, Layout.written_append]

theorem Steady.topLevel {d : Mode → Doc} (hd : Steady d) :
    Steady fun m => m.topLevel (d m) (ds.map (· m)) := by
  obtain ⟨ts, hts, htokens⟩ := hd
  obtain ⟨members, hmembers, hwritten⟩ := memberTokens hds
  refine ⟨_, .append hts (.module hmembers), fun m => ?_⟩
  rw [Mode.tokens_topLevel, htokens, hwritten, Layout.written_append, Layout.written_append,
    Layout.written_append]

theorem Steady.whereClause : Steady fun m => m.whereClause (ds.map (· m)) := by
  cases ds with
  | nil => exact const .empty
  | cons d ds =>
    have hblock := (const (text "where")).beside (block hds Mode.whereIndent) true
    exact hblock.of_tokens_eq fun m => by simp [Mode.whereClause]

end

end Offside
