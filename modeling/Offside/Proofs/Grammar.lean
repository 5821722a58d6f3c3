import Offside.Proofs.NameWords
import Offside.Proofs.SameTokens

/-!
# Reading what stands in brackets

Brackets are read the same way in types, patterns and expressions: commas alone are the name of a
constructor, one part in parentheses is that part, several are a tuple, and a name in parentheses is
an operator. A grammar says what is left: how the words between the commas are read.
-/
namespace Offside.Reading

open Offside.Doc Offside.Syntax TokenTree

/-- The constructor that is written as commas in parentheses. -/
def commaCon : Nat → SpecialCon
  | 0 => .unit
  | n + 1 => .tuple (UInt64.ofNat (n + 2))

theorem commaCon_tuple {arity : UInt64} (hzero : arity ≠ 0) (hone : arity ≠ 1) :
    commaCon (arity.toNat - 1) = .tuple arity := by
  have hzero' : arity.toNat ≠ 0 := fun h => hzero (UInt64.toNat_inj.mp h)
  have hone' : arity.toNat ≠ 1 := fun h => hone (UInt64.toNat_inj.mp h)
  obtain ⟨n, hn⟩ : ∃ n, arity.toNat = n + 2 := ⟨arity.toNat - 2, by omega⟩
  rw [hn, Nat.add_sub_cancel_right (n := n + 1) (m := 1), commaCon, ← hn, UInt64.ofNat_toNat]

section

variable {α : Type}

/-- A word that is a name, or that has been read already. -/
def nameOf (a : Alphabet) (named : QName → α) : List (Item α) → α
  | [.whole x] => x
  | w => named (a.readName ((characters? w).getD []))

theorem nameOf_chars {a : Alphabet} {named : QName → α} (cs : List Char) :
    nameOf a named (cs.map .chr) = named (a.readName cs) := by
  unfold nameOf
  split
  · next x h => rcases cs with _ | ⟨c, _ | ⟨d, ds⟩⟩ <;> simp at h
  · rw [characters?_chars, Option.getD_some]

/-- The name of an operator between its operands, perhaps in backquotes. -/
def infixOf (a : Alphabet) (named : QName → α) (w : List (Item α)) : α :=
  nameOf a named (if w.getLast?.any (Item.is '\x60') then w.tail.dropLast else w)

/-- A function and its arguments in a row. -/
def applied (app : α → α → α) (atom : List (Item α) → α) : List (List (Item α)) → α
  | [] => atom []
  | w :: ws => ws.foldl (fun f v => app f (atom v)) (atom w)

theorem applied_append {app : α → α → α} {atom : List (Item α) → α} {ws : List (List (Item α))}
    (hne : ws ≠ []) (w : List (Item α)) :
    applied app atom (ws ++ [w]) = app (applied app atom ws) (atom w) := by
  obtain ⟨v, vs, rfl⟩ := List.exists_cons_of_ne_nil hne
  simp [applied]

/-- How one sort of tree is read: names, the words between two commas, and what stands in each kind
of bracket. -/
structure Grammar (α : Type) where
  quoted : Quoted → α
  named : QName → α
  phrase : List (List (Item α)) → α
  tuple : List α → α
  list : List α → α
  braces : List (Item α) → α

namespace Grammar

variable (g : Grammar α)

def parens : List α → α
  | [x] => x
  | xs => g.tuple xs

def close : Bracket → List (Item α) → α
  | .round, is =>
    if is.all (Item.is ',') then g.named (.unqualified (.special (commaCon is.length)))
    else g.parens ((phrases is).map g.phrase)
  | .square, is =>
    if is.isEmpty then g.named (.unqualified (.special .list)) else
      g.list ((phrases is).map g.phrase)
  | .curly, is => g.braces is

def reader : Reader α := ⟨g.quoted, g.close⟩

/-- A word alone can be the name of an operator. -/
def ReadsOperators (a : Alphabet) : Prop :=
  ∀ {q : QName}, a.IsQName q → q.isSymbolic = true →
    g.phrase [(letters q).map .chr] = g.named (a.readName (letters q))

variable {g} {a : Alphabet}

theorem parens_eq {xs : List α} (hxs : ¬ xs.length < 2) : g.parens xs = g.tuple xs := by
  match xs, hxs with
  | [], hxs | [_], hxs => simp at hxs
  | _ :: _ :: _, _ => rfl

theorem close_commas (n : Nat) :
    g.close .round (List.replicate n (.chr ',')) =
      g.named (.unqualified (.special (commaCon n))) := by
  have hall : (List.replicate n (Item.chr (α := α) ',')).all (Item.is ',') = true := by
    simp
  rw [close, hall, List.length_replicate]
  rfl

section

variable {wss : List (List (List TokenTree))} (hne : wss ≠ [])
  (hwss : ∀ ws ∈ wss, ws ≠ [] ∧ ∀ w ∈ ws, IsWord a w)
include hne hwss

theorem close_parens : g.close .round (g.reader.items (joinParts (wss.map joinWords))) =
    g.parens (wss.map fun ws => g.phrase (ws.map g.reader.items)) := by
  rw [close, all_is_comma_joinParts g.reader hne hwss, if_neg (by simp),
    phrases_items_joinParts g.reader hne fun ws hws => (hwss ws hws).2, List.map_map]
  rfl

theorem close_brackets : g.close .square (g.reader.items (joinParts (wss.map joinWords))) =
    g.list (wss.map fun ws => g.phrase (ws.map g.reader.items)) := by
  rw [close, isEmpty_items_joinParts g.reader hne hwss, if_neg (by simp),
    phrases_items_joinParts g.reader hne fun ws hws => (hwss ws hws).2, List.map_map]
  rfl

end

section

variable {ws : List (List TokenTree)} (hne : ws ≠ []) (hws : ∀ w ∈ ws, IsWord a w)
include hne hws

theorem close_words :
    g.close .round (g.reader.items (joinWords ws)) = g.phrase (ws.map g.reader.items) := by
  rw [joinWords_eq_joinParts, close_parens (by simp) (by simpa using ⟨hne, hws⟩)]
  rfl

theorem close_bracketed :
    g.close .square (g.reader.items (joinWords ws)) =
      g.list [g.phrase (ws.map g.reader.items)] := by
  rw [joinWords_eq_joinParts, close_brackets (by simp) (by simpa using ⟨hne, hws⟩)]
  rfl

end

/-! ### Names -/

/-- A name as an operand is in brackets or an identifier. -/
theorem items_nameTrees_cases (r : Reader α) (q : QName) :
    (∃ x, r.items (nameTrees q) = [.whole x]) ∨
    ∃ s, q.name = .ident s ∧ r.items (nameTrees q) = (letters q).map .chr := by
  unfold nameTrees
  cases hsymbolic : q.isSymbolic with
  | true => exact .inl (by simp)
  | false =>
    obtain ⟨qualifier, name⟩ := q
    cases name with
    | ident s => exact .inr ⟨s, rfl, by simp [bareTrees]⟩
    | symbol s => contradiction
    | special con =>
      cases con with
      | fn | cons => contradiction
      | unit | list | tuple => exact .inl (by simp [bareTrees, specialTrees])

theorem close_operator (hg : g.ReadsOperators a) {q : QName} (hq : a.IsQName q)
    (hsymbolic : q.isSymbolic = true) :
    g.close .round ((letters q).map .chr) = g.named (plain q) := by
  have hword : IsWord a ((letters q).map .chr) := by
    rw [← bareTrees_of_isSymbolic hsymbolic]
    exact (worded_bare hq).isWord _ (by simp)
  have hclose := close_words (g := g) (List.cons_ne_nil _ []) (by simpa using hword)
  rw [joinWords, List.intercalate_singleton, Reader.items_chars, List.map_singleton,
    Reader.items_chars] at hclose
  rw [hclose, hg hq hsymbolic, readName_of_isSymbolic hq hsymbolic]

theorem nameOf_nameTrees (hg : g.ReadsOperators a) {q : QName} (hq : a.IsQName q) :
    nameOf a g.named (g.reader.items (nameTrees q)) = g.named (plain q) := by
  unfold nameTrees
  cases hsymbolic : q.isSymbolic with
  | true =>
    simp only [if_true, bareTrees_of_isSymbolic hsymbolic, Reader.items_cons, Reader.items_nil,
      Reader.item_group, Reader.items_chars]
    exact close_operator hg hq hsymbolic
  | false =>
    obtain ⟨qualifier, name⟩ := q
    cases name with
    | symbol s => contradiction
    | ident s =>
      have hread := Alphabet.readName_letters hq.qualified hq.name (by simp)
      simp only [Bool.false_eq_true, if_false, bareTrees, Reader.items_chars, nameOf_chars, hread]
    | special con =>
      simp only [Bool.false_eq_true, if_false, bareTrees]
      cases con with
      | fn | cons => contradiction
      | unit => simpa [specialTrees, nameOf, plain, commaCon] using! g.close_commas 0
      | list => simp [specialTrees, nameOf, plain, reader, close]
      | tuple arity =>
        cases hq.name with
        | special hzero hone =>
          have hcon : commaCon (arity.toNat - 1) = .tuple arity :=
            commaCon_tuple (by simpa using hzero) (by simpa using hone)
          have hcommas : g.reader.items (List.replicate (arity.toNat - 1) (.chr ',')) =
              List.replicate (arity.toNat - 1) (.chr ',') := by
            rw [Reader.items_eq, List.map_replicate, Reader.item_chr]
          simpa [specialTrees, nameOf, plain, hcommas, hcon] using! g.close_commas (arity.toNat - 1)

/-- The word of an operator is in backquotes, or it is a symbolic name. -/
theorem items_infixTrees_cases (r : Reader α) (q : QName) :
    (∃ w, r.items (infixTrees q) = .chr '\x60' :: w ++ [.chr '\x60']) ∨
    q.isSymbolic = true ∧ r.items (infixTrees q) = (letters q).map .chr := by
  unfold infixTrees
  cases hsymbolic : q.isSymbolic with
  | true => exact .inr ⟨rfl, by rw [if_pos rfl, bareTrees_of_isSymbolic hsymbolic, r.items_chars]⟩
  | false => exact .inl ⟨r.items (bareTrees q), by simp⟩

theorem infixOf_infixTrees (hg : g.ReadsOperators a) {q : QName} (hq : a.IsQName q) :
    infixOf a g.named (g.reader.items (infixTrees q)) = g.named (plain q) := by
  unfold infixTrees
  cases hsymbolic : q.isSymbolic with
  | true =>
    obtain ⟨c, hlast, hc⟩ := exists_getLast?_of_isSymbolic hq hsymbolic
    have htick : c ≠ '\x60' := by
      rintro rfl
      rw [Alphabet.isSymbol_of_ascii (by decide)] at hc
      exact absurd hc (by decide)
    rw [if_pos rfl, bareTrees_of_isSymbolic hsymbolic, Reader.items_chars]
    simp [infixOf, hlast, htick, nameOf_chars, readName_of_isSymbolic hq hsymbolic]
  | false =>
    have hname := nameOf_nameTrees hg hq
    rw [nameTrees, hsymbolic, if_neg (by simp)] at hname
    rw [if_neg (by simp), List.cons_append, Reader.items_cons, Reader.items_append,
      Reader.items_cons, Reader.items_nil, Reader.item_chr, infixOf, ← List.cons_append,
      List.getLast?_concat, List.cons_append, List.tail_cons, List.dropLast_concat]
    exact hname

/-! ### Documents -/

/-- The words of the document are read this way. -/
def Shows (g : Grammar α) (a : Alphabet) (R : List (List (Item α)) → Prop) (d : Doc) : Prop :=
  ∃ ws, Worded a d ws ∧ R (ws.map g.reader.items)

section

variable {R : List (List (Item α)) → Prop} {d : Doc}

theorem Shows.group {b : Bracket} {inner : List TokenTree} (hd : Worded a d [[.group b inner]])
    (hwhole : R [[.whole (g.close b (g.reader.items inner))]]) : g.Shows a R d :=
  ⟨_, hd, by simpa using! hwhole⟩

theorem Shows.parens {R' : List (List (Item α)) → Prop} {x : α} (hd : g.Shows a R' d)
    (hphrase : ∀ ws, R' ws → g.phrase ws = x) (hwhole : R [[.whole x]]) : g.Shows a R d.parens := by
  obtain ⟨ws, hws, hreads⟩ := hd
  apply Shows.group hws.parens
  rw [close_words hws.ne_nil hws.isWord, hphrase _ hreads]
  exact hwhole

/-- Parentheses where they are asked for. -/
theorem Shows.parensIf {R' : List (List (Item α)) → Prop} {b : Bool} {x : α}
    (hparens : b = true → g.Shows a R' d) (hphrase : ∀ ws, R' ws → g.phrase ws = x)
    (hwhole : b = true → R [[.whole x]]) (hd : b = false → g.Shows a R d) :
    g.Shows a R (parensIf b d) := by
  cases b with
  | true => exact (hparens rfl).parens hphrase (hwhole rfl)
  | false => exact hd rfl

/-! ### Lists -/

section

variable {τ : Type} {R' : τ → List (List (Item α)) → Prop} {f : τ → α} {xs : List τ} {ds : List Doc}
  (hds : List.Forall₂ (fun x => g.Shows a (R' x)) xs ds) (hphrase : ∀ x ws, R' x ws →
    g.phrase ws = f x)
include hds hphrase

/-- The words of the members of a list, and what they are read as. -/
theorem exists_phrases : ∃ wss, List.Forall₂ (Worded a) ds wss ∧
    wss.map (fun ws => g.phrase (ws.map g.reader.items)) = xs.map f := by
  obtain ⟨wss, hwss, hreads⟩ := exists_words hds
  exact ⟨wss, hwss, map_eq_of_forall₂ (hreads.imp fun x ws h => hphrase x _ h)⟩

theorem Shows.parenList (m : Mode) (hlength : ¬ xs.length < 2)
    (hwhole : R [[.whole (g.tuple (xs.map f))]]) : g.Shows a R (m.parenList ds) := by
  obtain ⟨wss, hwss, hphrases⟩ := exists_phrases hds hphrase
  have hwss' : wss.length = xs.length := by simpa using congrArg List.length hphrases
  have hne : wss ≠ [] := by
    rintro rfl
    simp [← hwss'] at hlength
  apply Shows.group (worded_parenList hwss m)
  rw [close_parens hne (forall_of_worded hwss), hphrases, parens_eq (by simpa using hlength)]
  exact hwhole

theorem Shows.bracketList (m : Mode)
    (hwhole : R [[.whole (if xs.isEmpty then g.named (.unqualified (.special .list)) else
      g.list (xs.map f))]]) :
    g.Shows a R (m.bracketList (punctuate comma ds)) := by
  obtain ⟨wss, hwss, hphrases⟩ := exists_phrases hds hphrase
  apply Shows.group (worded_bracketList hwss m)
  cases wss with
  | nil =>
    obtain rfl : xs = [] := List.map_eq_nil_iff.mp hphrases.symm
    exact hwhole
  | cons ws wss =>
    rw [close_brackets (by simp) (forall_of_worded hwss), hphrases]
    cases xs with
    | nil => simp at hphrases
    | cons x xs => exact hwhole

end

end

/-- Well-formed trees with the same text are read as the same. -/
theorem same_of_squeezed {t t' : Node} {m m' : Mode} {level level' : Nat}
    {R R' : List (List (Item α)) → Prop} {x x' : α} (hwell : t.WellFormed)
    (ht : (t.pretty m level).Meets (g.Shows a R)) (hphrase : ∀ ws, R ws → g.phrase ws = x)
    (hwell' : t'.WellFormed) (ht' : (t'.pretty m' level').Meets (g.Shows a R'))
    (hphrase' : ∀ ws, R' ws → g.phrase ws = x') (style style' : Style) :
    ∃ cs cs', t.chunks style m level = .ok cs ∧ t'.chunks style' m' level' = .ok cs' ∧
      (Chunk.squeezed cs = Chunk.squeezed cs' → x = x') := by
  obtain ⟨hfault, hdoc⟩ := hwell.toDoc_eq m level
  obtain ⟨hfault', hdoc'⟩ := hwell'.toDoc_eq m' level'
  obtain ⟨ws, hws, hreads⟩ := ht hfault
  obtain ⟨ws', hws', hreads'⟩ := ht' hfault'
  refine ⟨_, _, by rw [Node.chunks, hdoc]; rfl, by rw [Node.chunks, hdoc']; rfl, fun h => ?_⟩
  rw [← hphrase _ hreads, ← hphrase' _ hreads', hws.unique hws' h g.reader]

end Grammar

end

end Offside.Reading
