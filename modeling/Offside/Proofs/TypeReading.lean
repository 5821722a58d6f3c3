import Offside.Proofs.Grammar

/-!
# Printed types are unambiguous

The words of a printed type are atoms and arrows. Atoms in a row are an application, and an arrow
reaches as far to the right as it can. So a type is read back from its text, but for the module that
stands before a special name.
-/
namespace Offside

open Reading Doc TokenTree

namespace Syntax.Ty

mutual

/-- The type with no module before special names. -/
def normal : Ty → Ty
  | .fn source target => .fn source.normal target.normal
  | .tuple elems => .tuple (normals elems)
  | .app f arg => .app f.normal arg.normal
  | .var name => .var name
  | .con name => .con (plain name)

def normals : List Ty → List Ty
  | [] => []
  | t :: ts => t.normal :: normals ts

end

theorem normals_eq (ts : List Ty) : normals ts = ts.map normal := by
  induction ts with
  | nil => rw [normals]; rfl
  | cons t ts ih => rw [normals, ih, List.map_cons]

/-- A type with names as they are written in types. -/
inductive Lexical (a : Alphabet) : Ty → Prop where
  | fn {source target : Ty} (hsource : Lexical a source) (htarget : Lexical a target) :
      Lexical a (.fn source target)
  | tuple {elems : List Ty} (helems : ∀ t ∈ elems, Lexical a t) : Lexical a (.tuple elems)
  | app {f arg : Ty} (hf : Lexical a f) (harg : Lexical a arg) : Lexical a (.app f arg)
  | var {s : String} {c : Char} {cs : List Char} (hs : s.toList = c :: cs)
      (hc : a.kind c = .small ∨ c = '_')
      (hcs : ∀ d ∈ cs, a.isWord d = true) : Lexical a (.var (.ident s))
  | con {q : QName} {s : String} (hname : q.name = .ident s) (hs : a.IsIdent .large s.toList)
      (hq : a.IsQualified q) :
      Lexical a (.con q)
  | special {q : QName} {con : SpecialCon} (hname : q.name = .special con) (hcons : con ≠ .cons)
      (hzero : con ≠ .tuple 0) (hone : con ≠ .tuple 1) (hq : a.IsQualified q) : Lexical a (.con q)

end Syntax.Ty

open Syntax

namespace Reading.TypeReader

variable (a : Alphabet)

def named (q : QName) : Ty := if a.isCon q.name then .con q else .var q.name

abbrev atom : List (Item Ty) → Ty := nameOf a (named a)

def isArrow (w : List (Item Ty)) : Bool := characters? w = some "->".toList

abbrev application : List (List (Item Ty)) → Ty := applied .app (atom a)

/-- Types with arrows between them. -/
def arrows : List Ty → Ty
  | [] => .tuple []
  | [t] => t
  | t :: ts => .fn t (arrows ts)

/-- A word alone may be the name of the arrow. -/
def phrase : List (List (Item Ty)) → Ty
  | [w] => atom a w
  | ws => arrows ((ws.splitOnP isArrow).map (application a))

def grammar : Grammar Ty where
  quoted _ := .tuple []
  named := named a
  phrase := phrase a
  tuple := .tuple
  list ts := .app (.con (.unqualified (.special .list))) (arrows ts)
  braces _ := .tuple []

/-- A row of words that is read as a type, and can stand where a type of this level can. -/
structure Reads (level : Nat) (t : Ty) (ws : List (List (Item Ty))) : Prop where
  arrows_eq : arrows ((ws.splitOnP isArrow).map (application a)) = t
  head_not_arrow : ∀ w ∈ ws.head?, isArrow w = false
  application_eq : 1 ≤ level → (∀ w ∈ ws, isArrow w = false) ∧ application a ws = t
  exists_word : 2 ≤ level → ∃ w, ws = [w]

variable {a}

namespace Reads

theorem phrase_eq {level : Nat} {ws : List (List (Item Ty))} {t : Ty} (h : Reads a level t ws) :
    phrase a ws = t := by
  unfold phrase
  split
  · next w =>
    have hw : isArrow w = false := h.head_not_arrow w rfl
    have harrows := h.arrows_eq
    rw [List.splitOnP_eq_singleton (by simpa using hw)] at harrows
    exact harrows
  · exact h.arrows_eq

theorem of_application {ws : List (List (Item Ty))} (hws : ∀ w ∈ ws, isArrow w = false)
    {level : Nat} (hword : 2 ≤ level → ∃ w, ws = [w]) : Reads a level (application a ws) ws := by
  refine ⟨?_, fun w hw => hws w (List.mem_of_mem_head? hw), fun _ => ⟨hws, rfl⟩, hword⟩
  rw [List.splitOnP_eq_singleton hws]
  rfl

theorem word {w : List (Item Ty)} (hw : isArrow w = false) (level : Nat) :
    Reads a level (atom a w) [w] :=
  .of_application (by simpa using hw) fun _ => ⟨w, rfl⟩

theorem whole (t : Ty) (level : Nat) : Reads a level t [[.whole t]] := by
  change Reads a level (atom a [.whole t]) _
  exact .word rfl level

theorem fn {ws vs : List (List (Item Ty))} {s t : Ty} (hws : Reads a 1 s ws) (hne : ws ≠ [])
    (hvs : Reads a 0 t vs) : Reads a 0 (.fn s t) (ws ++ "->".toList.map .chr :: vs) := by
  obtain ⟨harrow, happlication⟩ := hws.application_eq (by simp)
  refine ⟨?_, ?_, by simp, by simp⟩
  · rw [List.splitOnP_append_cons_of_forall_mem harrow _ (by rfl), List.map_cons, happlication,
      ← hvs.arrows_eq]
    obtain ⟨v, vss, hsplit⟩ := List.exists_cons_of_ne_nil (List.splitOnP_ne_nil isArrow vs)
    rw [hsplit]
    rfl
  · obtain ⟨w, ws, rfl⟩ := List.exists_cons_of_ne_nil hne
    simpa using harrow w (by simp)

theorem app {ws : List (List (Item Ty))} {w : List (Item Ty)} {f arg : Ty} (hws : Reads a 1 f ws)
    (hne : ws ≠ []) (hw : Reads a 2 arg [w]) {level : Nat} (hlevel : level ≤ 1) :
    Reads a level (.app f arg) (ws ++ [w]) := by
  obtain ⟨hf, rfl⟩ := hws.application_eq (by simp)
  obtain ⟨harg, rfl⟩ := hw.application_eq (by simp)
  have happ : application a (ws ++ [w]) = .app (application a ws) (application a [w]) :=
    applied_append hne w
  rw [← happ]
  exact .of_application (List.forall_mem_append.mpr ⟨hf, harg⟩) (by omega)

end Reads

theorem readsOperators : (grammar a).ReadsOperators a := by
  intro q _ _
  exact nameOf_chars _

/-- A document with words that are read as this type. -/
abbrev Shows (a : Alphabet) (level : Nat) (t : Ty) : Doc → Prop :=
  (grammar a).Shows a (Reads a level t)

/-- Parentheses where the level is too high. -/
theorem shows_parensIf {d : Doc} {t : Ty} {level bound : Nat}
    (hd : ∀ level ≤ bound, Shows a level t d) : Shows a level t (parensIf (bound < level) d) := by
  apply Grammar.Shows.parensIf (fun _ => hd 0 (Nat.zero_le _)) (fun _ h => h.phrase_eq) (fun _ =>
    .whole t level)
  intro hlevel
  exact hd level (by simpa using hlevel)

theorem isArrow_nameTrees {q : QName} (hq : a.IsQName q) :
    isArrow ((grammar a).reader.items (nameTrees q)) = false := by
  rcases Grammar.items_nameTrees_cases (grammar a).reader q with ⟨t, hitems⟩ | ⟨s, hname, hitems⟩
  · rw [hitems]
    rfl
  · obtain ⟨c, hlast, hc⟩ := exists_getLast?_letters hq hname
    rw [hitems, isArrow, characters?_chars, decide_eq_false_iff_not]
    intro h
    have hmark : IsMark a '>' := isMark_of_ascii (by decide)
    exact hmark.ne_of_isWord hc (by simpa [Option.some.inj h] using hlast.symm)

theorem shows_name {q : QName} (hq : a.IsQName q) (level : Nat) :
    Shows a level (named a (plain q)) q.doc := by
  refine ⟨_, worded_doc hq, ?_⟩
  have hname : atom a ((grammar a).reader.items (nameTrees q)) = named a (plain q) :=
    Grammar.nameOf_nameTrees readsOperators hq
  rw [← hname]
  exact .word (isArrow_nameTrees hq) level

end Reading.TypeReader

namespace Syntax.Ty

open TypeReader

variable {a : Alphabet}

theorem normal_of_isListCon {t : Ty} (ht : t.isListCon = true) :
    t.normal = .con (.unqualified (.special .list)) := by
  cases t with
  | con q =>
    have hq : q.name = .special .list := by simpa [isListCon] using ht
    rw [normal, plain, hq]
  | fn | tuple | app | var => contradiction

theorem isName_of_typeVar {s : String} {c : Char} {cs : List Char} (hs : s.toList = c :: cs)
    (hc : a.kind c = .small ∨ c = '_') (hcs : ∀ d ∈ cs, a.isWord d = true) :
    a.IsName (.ident s) ∧ a.isCon (.ident s) = false := by
  have hquote : c ≠ '\'' := by
    rintro rfl
    rw [a.ascii _ (by decide)] at hc
    exact absurd hc (by decide)
  have hlarge : a.kind c ≠ .large := by
    rcases hc with hc | rfl
    · simp [hc]
    · rw [a.ascii _ (by decide)]
      decide
  have hword : a.isWord c = true := by
    rcases hc with hc | rfl <;> simp [Alphabet.isWord, *]
  refine ⟨.ident (by simp [hs]) (by simpa [hs] using hquote) ?_,
    by simp [Alphabet.isCon, hs, hlarge]⟩
  rw [hs]
  exact List.forall_mem_cons.mpr ⟨hword, hcs⟩

theorem Lexical.shows {t : Ty} (ht : t.Lexical a) (m : Mode) (level : Nat) :
    (t.pretty m level).Meets (Shows a level t.normal) := by
  induction ht generalizing level with
  | fn _ _ hsource htarget =>
    rw [pretty, normal]
    refine .bind (hsource 1) fun d hd => .bind (htarget 0) fun e he =>
      .pure (shows_parensIf fun level hlevel => ?_)
    obtain ⟨ws, hws, hreads⟩ := hd
    obtain ⟨vs, hvs, hreads'⟩ := he
    obtain rfl : level = 0 := by omega
    have harrow : Worded a (text "->") ["->".toList.map .chr] :=
      .word (by rw [texts_chars]; exact .ofText (by decide))
        (isWord_operator (@Alphabet.isOperator_special a .fn rfl).1)
    refine ⟨_, worded_fillOnside (.cons hws (.cons harrow (.cons hvs .nil))) m (by simp), ?_⟩
    simpa using hreads.fn (by simpa using hws.ne_nil) hreads'
  | @tuple elems _ ih =>
    rw [pretty, normal, pretties_eq, normals_eq]
    refine .guard fun hlength => .bind (.mapM_forall₂ fun t ht => ih t ht 0) fun ds hds => .pure ?_
    exact .parenList hds (fun t ws h => h.phrase_eq) m hlength (.whole _ level)
  | app _ _ hf harg =>
    rw [pretty, normal]
    split_ifs with hlist
    · refine .bind (harg 0) fun d hd => .pure ?_
      obtain ⟨ws, hws, hreads⟩ := hd
      rw [normal_of_isListCon hlist, ← hreads.phrase_eq]
      exact .group hws.brackets (Grammar.close_bracketed hws.ne_nil hws.isWord ▸ .whole _ level)
    · refine .bind (hf 1) fun d hd => .bind (harg 2) fun e he =>
        .pure (shows_parensIf fun level hlevel => ?_)
      obtain ⟨ws, hws, hreads⟩ := hd
      obtain ⟨vs, hvs, hreads'⟩ := he
      refine ⟨_, worded_fillOnside (.cons hws (.cons hvs .nil)) m (by simp), ?_⟩
      obtain ⟨w, hw⟩ := hreads'.exists_word le_rfl
      rw [hw] at hreads'
      simpa [hw] using hreads.app (by simpa using hws.ne_nil) hreads' hlevel
  | @var s c cs hs hc hcs =>
    rw [pretty, normal]
    obtain ⟨hname, hcon⟩ := isName_of_typeVar hs hc hcs
    have hshows := shows_name ⟨hname, Alphabet.isQualified_unqualified _⟩ level
    rw [named, plain, QName.unqualified, hcon] at hshows
    exact .pure hshows
  | @con q s hname hs hq =>
    rw [pretty, normal]
    have hcon : a.isCon q.name = true := by
      rw [hname, hs.isCon_eq]
      rfl
    have hplain : plain q = q := by rw [plain, hname]
    exact .pure
      (by simpa [named, hplain, hcon] using shows_name ⟨hname ▸ hs.isName (.inr rfl), hq⟩ level)
  | @special q con hname hcons hzero hone hq =>
    rw [pretty, normal]
    have hcon : a.isCon q.name = true := by
      rw [hname]
      rfl
    exact .pure (by simpa [named, hcon] using shows_name ⟨hname ▸ .special hzero hone, hq⟩ level)

/-- Types with the same printed text, but for the spaces and line breaks between the words, are the
same up to the module before special names. -/
theorem printed_type_determines_type (a : Alphabet) {t t' : Ty} (hwell : (Node.ty t).WellFormed)
    (hwell' : (Node.ty t').WellFormed) (ht : t.Lexical a) (ht' : t'.Lexical a)
    (style style' : Style) (m m' : Mode) (level level' : Nat) :
    ∃ cs cs', (Node.ty t).chunks style m level = .ok cs ∧
      (Node.ty t').chunks style' m' level' = .ok cs' ∧
      (Chunk.squeezed cs = Chunk.squeezed cs' → t.normal = t'.normal) := by
  have hphrase : ∀ level t ws, Reads a level t ws → (grammar a).phrase ws = t :=
    fun _ _ _ h => h.phrase_eq
  exact Grammar.same_of_squeezed hwell (ht.shows m level) (hphrase _ _) hwell' (ht'.shows m' level')
    (hphrase _ _)
    style style'

/-- The list constructor and the arrow with and without the prelude before them, on a narrow page
and on one line. -/
theorem printed_list_of_functions_determines_type :
    let list := Ty.con (.unqualified (.special .list))
    let arrow := Ty.con (.unqualified (.special .fn))
    let t := Ty.fn (.list (.fn (.ofVar "a") (.ofVar "b"))) (.app (.special .fn) (.ofCon "C"))
    let t' := Ty.fn (.app list (.fn (.ofVar "a") (.ofVar "b"))) (.app arrow (.ofCon "C"))
    ((Node.ty t).WellFormed ∧ t.Lexical .basic) ∧ ((Node.ty t').WellFormed ∧ t'.Lexical .basic) ∧
      ∃ cs cs', (Node.ty t).chunks { lineLength := 4 } {} 0 = .ok cs ∧
        (Node.ty t').chunks {} { layout := .none } 0 = .ok cs' ∧
        Chunk.squeezed cs = Chunk.squeezed cs' ∧ t.normal = t'.normal := by
  intro list arrow t t'
  have hwell : (Node.ty t).WellFormed ∧ (Node.ty t').WellFormed := by
    constructor <;>
      simp [t, t', list, arrow, Ty.list, special, ofVar, ofCon, QName.ofSpecial, QName.ofIdent,
        QName.qualified, QName.unqualified, Node.wellFormed_iff, Node.lack?, Node.children,
        children, QName.children]
  have hvars : ∀ s ∈ ["a", "b"], (ofVar s).Lexical .basic := by
    simp only [List.forall_mem_cons]
    exact ⟨.var rfl (.inl (by decide)) (by simp), .var rfl (.inl (by decide)) (by simp), by simp⟩
  have hvar : (Ty.fn (.ofVar "a") (.ofVar "b")).Lexical .basic :=
    .fn (hvars _ (by simp)) (hvars _ (by simp))
  have hcon : (ofCon "C").Lexical .basic :=
    .con rfl (by decide) (Alphabet.isQualified_unqualified _)
  have hspecial : ∀ {q : QName} {con : SpecialCon}, q.name = .special con → con ∈ [.list, .fn] →
      Alphabet.basic.IsQualified q → (Ty.con q).Lexical .basic := by
    intro q con hname hcon hq
    fin_cases hcon <;> exact .special hname (by decide) (by decide) (by decide) hq
  have hlex : t.Lexical .basic ∧ t'.Lexical .basic :=
    ⟨.fn (.app (hspecial rfl (by simp) (Alphabet.isQualified_ofSpecial _)) hvar)
        (.app (hspecial rfl (by simp) (Alphabet.isQualified_ofSpecial _)) hcon),
      .fn (.app (hspecial rfl (by simp) (Alphabet.isQualified_unqualified _)) hvar)
        (.app (hspecial rfl (by simp) (Alphabet.isQualified_unqualified _)) hcon)⟩
  obtain ⟨cs, cs', hcs, hcs', hsame⟩ :=
    printed_type_determines_type .basic hwell.1 hwell.2 hlex.1 hlex.2
    { lineLength := 4 } {} {} { layout := .none } 0 0
  have htext : ((Node.ty t).chunks { lineLength := 4 } {} 0).map Chunk.squeezed =
      ((Node.ty t').chunks {} { layout := .none } 0).map Chunk.squeezed := by decide +kernel
  rw [hcs, hcs'] at htext
  exact ⟨⟨hwell.1, hlex.1⟩, ⟨hwell.2, hlex.2⟩, cs, cs', hcs, hcs', Except.ok.inj htext,
    hsame (Except.ok.inj htext)⟩

end Syntax.Ty

end Offside
