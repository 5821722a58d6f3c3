import Mathlib
import Offside.Pretty.Name

/-!
# Names as texts

Which texts are names depends on a classification of the characters, of which only the part within
ASCII is fixed here. A name with its module before it is read back from its characters: an
identifier is what stands behind the last character that is no letter, an operator what stands
behind the last letter and its dot.
-/
namespace Offside.Reading

open Offside.Syntax

theorem mem_of_mem_intercalate {α : Type} {separator : List α} {xss : List (List α)} {x : α}
    (h : x ∈ List.intercalate separator xss) : x ∈ separator ∨ ∃ xs ∈ xss, x ∈ xs := by
  induction xss with
  | nil => simp at h
  | cons xs xss ih =>
    cases xss with
    | nil => exact .inr ⟨xs, by simp, by simpa using h⟩
    | cons ys yss =>
      rw [List.intercalate_cons_cons, List.mem_append, List.mem_append] at h
      rcases h with (h | h) | h
      · exact .inr ⟨xs, by simp, h⟩
      · exact .inl h
      · obtain h | ⟨zs, hzs, h⟩ := ih h
        · exact .inl h
        · exact .inr ⟨zs, List.mem_cons_of_mem _ hzs, h⟩

inductive CharKind where
  | small
  | large
  | digit
  | symbol
  | other
deriving DecidableEq

def asciiSymbols : List Char :=
  ['!', '#', '$', '%', '&', '*', '+', '.', '/', '<', '=', '>', '?', '@', '\\', '^', '|',
    '-', '~', ':']

def asciiKind (c : Char) : CharKind :=
  if c.isLower then .small
  else if c.isUpper then .large
  else if c.isDigit then .digit
  else if c ∈ asciiSymbols then .symbol
  else .other

/-- A classification of all characters that is the usual one on ASCII. -/
structure Alphabet where
  kind : Char → CharKind
  ascii : ∀ c, c.toNat < 128 → kind c = asciiKind c

namespace Alphabet

/-- No letters and symbols but those of ASCII. -/
def basic : Alphabet := ⟨asciiKind, fun _ _ => rfl⟩

variable (a : Alphabet)

/-- The characters of identifiers. -/
def isWord (c : Char) : Bool := a.kind c ∈ [.small, .large, .digit] || c = '_' || c = '\''

def isSymbol (c : Char) : Bool := a.kind c = .symbol

/-- The texts of identifiers that start with a character of this kind. -/
def IsIdent (first : CharKind) (cs : List Char) : Prop :=
  ∃ c rest, cs = c :: rest ∧ a.kind c = first ∧ ∀ d ∈ rest, a.isWord d = true

/-- The texts of operators. -/
def IsOperator (cs : List Char) : Prop := cs ≠ [] ∧ ∀ c ∈ cs, a.isSymbol c = true

/-- Identifiers with capitals, with dots between them. -/
def IsModule (m : ModuleName) : Prop :=
  ∃ parts : List (List Char), parts ≠ [] ∧ (∀ p ∈ parts, a.IsIdent .large p) ∧
    m.text.toList = List.intercalate ['.'] parts

/-- A module stands before the name only if it is written so; special names can have only the
prelude before them. -/
def IsQualified (q : QName) : Prop :=
  ∀ m ∈ q.qualifier, a.IsModule m ∧ ∀ con, q.name = .special con → m = .prelude

end Alphabet

def reservedWords : List String :=
  ["case", "class", "data", "default", "deriving", "do", "else", "if", "import", "in", "infix",
    "infixl", "infixr", "instance", "let", "module", "newtype", "of", "then", "type", "where", "_"]

def reservedOperators : List String := ["..", ":", "::", "=", "\\", "|", "<-", "->", "@", "~", "=>"]

/-- The names of variables. -/
inductive Alphabet.IsVar (a : Alphabet) : Name → Prop where
  | ident {s : String} (hs : a.IsIdent .small s.toList) (hreserved : s ∉ reservedWords) :
      IsVar a (.ident s)
  | symbol {s : String} (hs : a.IsOperator s.toList) (hcolon : s.toList.head? ≠ some ':')
      (hreserved : s ∉ reservedOperators) : IsVar a (.symbol s)

/-- The names of constructors. -/
inductive Alphabet.IsCon (a : Alphabet) : Name → Prop where
  | ident {s : String} (hs : a.IsIdent .large s.toList) : IsCon a (.ident s)
  | symbol {s : String} (hs : a.IsOperator s.toList) (hcolon : s.toList.head? = some ':')
      (hreserved : s ∉ reservedOperators) : IsCon a (.symbol s)
  | special {con : SpecialCon} (hzero : con ≠ .tuple 0) (hone : con ≠ .tuple 1) :
      IsCon a (.special con)

namespace Alphabet

variable {a : Alphabet}

theorem isQualified_unqualified (n : Name) : a.IsQualified (.unqualified n) := by
  simp [IsQualified, QName.unqualified]

theorem isWord_of_ascii {c : Char} (hc : c.toNat < 128) :
    a.isWord c = (asciiKind c ∈ [.small, .large, .digit] || c = '_' || c = '\'') := by
  rw [isWord, a.ascii c hc]

theorem isSymbol_of_ascii {c : Char} (hc : c.toNat < 128) :
    a.isSymbol c = (asciiKind c = .symbol : Bool) := by
  rw [isSymbol, a.ascii c hc]

theorem isSymbol_of_isWord {c : Char} (hc : a.isWord c = true) : a.isSymbol c = false := by
  simp only [isWord, Bool.or_eq_true, decide_eq_true_eq, or_assoc] at hc
  obtain hkind | rfl | rfl := hc
  · rw [isSymbol, decide_eq_false_iff_not]
    intro h
    simp [h] at hkind
  · rw [isSymbol_of_ascii (by decide)]
    decide
  · rw [isSymbol_of_ascii (by decide)]
    decide

theorem kind_of_isDigit {c : Char} (hc : c.isDigit = true) : a.kind c = .digit := by
  have hrange := Char.isDigit_iff_toNat.mp hc
  have hnine : '9'.toNat = 57 := rfl
  have hval : c.val.toNat = c.toNat := rfl
  have hlower : c.isLower = false := by
    have hfirst : 'a'.val.toNat = 97 := rfl
    simp only [Char.isLower, ge_iff_le, UInt32.le_iff_toNat_le, Bool.and_eq_false_iff,
      decide_eq_false_iff_not]
    omega
  have hupper : c.isUpper = false := by
    have hfirst : 'A'.val.toNat = 65 := rfl
    simp only [Char.isUpper, ge_iff_le, UInt32.le_iff_toNat_le, decide_eq_false_iff_not]
    omega
  rw [a.ascii c (by omega), asciiKind, hlower, hupper, hc]
  rfl

theorem isDigit_of_letter {c : Char} (hc : a.kind c = .small ∨ a.kind c = .large) :
    c.isDigit = false := by
  by_contra h
  simp [kind_of_isDigit (eq_true_of_ne_false h)] at hc

theorem ne_of_letter {c d : Char} (hc : a.kind c = .small ∨ a.kind c = .large)
    (hd : d.toNat < 128 ∧ asciiKind d ≠ .small ∧ asciiKind d ≠ .large) : c ≠ d := by
  rintro rfl
  rw [a.ascii c hd.1] at hc
  exact hc.elim hd.2.1 hd.2.2

theorem isIdent_cons_iff {first : CharKind} {c : Char} {cs : List Char} :
    a.IsIdent first (c :: cs) ↔ a.kind c = first ∧ cs.all a.isWord = true := by
  rw [List.all_eq_true]
  constructor
  · rintro ⟨d, rest, h, hd, hrest⟩
    obtain ⟨rfl, rfl⟩ := List.cons.inj h
    exact ⟨hd, hrest⟩
  · rintro ⟨hc, hcs⟩
    exact ⟨c, cs, rfl, hc, hcs⟩

instance (first : CharKind) (cs : List Char) : Decidable (a.IsIdent first cs) :=
  match cs with
  | [] => isFalse fun ⟨_, _, h, _⟩ => by simp at h
  | _ :: _ => decidable_of_iff _ isIdent_cons_iff.symm

instance (cs : List Char) : Decidable (a.IsOperator cs) :=
  decidable_of_iff (cs ≠ [] ∧ cs.all a.isSymbol = true) (by rw [List.all_eq_true]; rfl)

theorem IsIdent.forall_isWord {first : CharKind} (hfirst : first ∈ [.small, .large, .digit])
    {cs : List Char} (hcs : a.IsIdent first cs) : ∀ c ∈ cs, a.isWord c = true := by
  obtain ⟨c, rest, rfl, hc, hrest⟩ := hcs
  refine List.forall_mem_cons.mpr ⟨?_, hrest⟩
  simp [isWord, hc, hfirst]

/-- The prelude can stand before special names. -/
theorem isQualified_ofSpecial (con : SpecialCon) : a.IsQualified (.ofSpecial con) := by
  rintro _ ⟨rfl⟩
  have hword : ∀ c ∈ "relude".toList, a.isWord c = true := by
    simp [isWord_of_ascii, asciiKind, Char.isLower]
  refine ⟨⟨["Prelude".toList], by simp, ?_, rfl⟩, fun _ _ => rfl⟩
  have hkind : a.kind 'P' = .large := a.ascii _ (by decide)
  simpa using ⟨'P', "relude".toList, rfl, hkind, hword⟩

theorem IsIdent.ne_nil {first : CharKind} {cs : List Char}
    (hcs : a.IsIdent first cs) : cs ≠ [] := by
  obtain ⟨c, rest, rfl, -⟩ := hcs
  simp

theorem IsIdent.head?_ne_quote {first : CharKind} (hfirst : first ≠ .other) {cs : List Char}
    (hcs : a.IsIdent first cs) : cs.head? ≠ some '\'' := by
  obtain ⟨c, rest, rfl, hc, -⟩ := hcs
  rw [List.head?_cons]
  rintro ⟨rfl⟩
  rw [a.ascii _ (by decide)] at hc
  exact hfirst (hc.symm.trans (by decide))

/-- The last character of a module name belongs to an identifier. -/
theorem IsModule.exists_last {m : ModuleName} (hm : a.IsModule m) :
    ∃ init c, m.text.toList = init ++ [c] ∧ a.isWord c = true := by
  obtain ⟨parts, hne, hparts, htext⟩ := hm
  rw [htext]
  clear htext
  induction parts with
  | nil => exact absurd rfl hne
  | cons p parts ih =>
    obtain ⟨hp, hparts⟩ := List.forall_mem_cons.mp hparts
    cases parts with
    | nil =>
      have hword := hp.forall_isWord (by decide)
      obtain ⟨c, rest, rfl, -⟩ := hp
      refine ⟨(c :: rest).dropLast, (c :: rest).getLast (by simp), ?_, hword _ (List.getLast_mem _)⟩
      rw [List.intercalate_singleton, List.dropLast_append_getLast]
    | cons p' parts =>
      obtain ⟨init, c, hlast, hc⟩ := ih (by simp) hparts
      exact ⟨p ++ ['.'] ++ init, c, by rw [List.intercalate_cons_cons, hlast]; simp, hc⟩

end Alphabet

/-! ### Reading -/

/-- The characters of a name. -/
def nameLetters : Name → List Char
  | .ident s | .symbol s => s.toList
  | .special con => con.text.toList

/-- The characters of a name with its module before it. Special names stand alone. -/
def letters (q : QName) : List Char :=
  match q.qualifier, q.name with
  | some m, .ident s | some m, .symbol s => m.text.toList ++ '.' :: s.toList
  | _, n => nameLetters n

/-- The name of an operator. -/
def readOperator (cs : List Char) : Name :=
  if cs = ['-', '>'] then .special .fn else if cs = [':'] then .special .cons else
    .symbol (String.ofList cs)

/-- The name with these characters. -/
def Alphabet.readName (a : Alphabet) (cs : List Char) : QName :=
  if cs.rtakeWhile a.isWord = [] then
    let before := cs.rdropWhile a.isSymbol
    if before = [] then .unqualified (readOperator cs)
    else .qualified ⟨String.ofList before⟩ (.symbol (String.ofList (cs.rtakeWhile a.isSymbol).tail))
  else
    let before := cs.rdropWhile a.isWord
    if before = [] then .unqualified (.ident (String.ofList cs))
    else .qualified ⟨String.ofList before.dropLast⟩
      (.ident (String.ofList (cs.rtakeWhile a.isWord)))

/-- The name without the module before it if it is special. -/
def plain (q : QName) : QName :=
  match q.name with
  | .special con => .unqualified (.special con)
  | _ => q

@[simp] theorem plain_name (q : QName) : (plain q).name = q.name := by
  unfold plain
  split
  · next con h => exact h.symm
  · rfl

/-- The names that can be read back. -/
inductive Alphabet.IsName (a : Alphabet) : Name → Prop where
  | ident {s : String} (hne : s.toList ≠ []) (hquote : s.toList.head? ≠ some '\'')
      (hs : ∀ c ∈ s.toList, a.isWord c = true) : IsName a (.ident s)
  | symbol {s : String} (hs : a.IsOperator s.toList) (hfn : s.toList ≠ ['-', '>'])
      (hcons : s.toList ≠ [':']) :
      IsName a (.symbol s)
  | special {con : SpecialCon} (hzero : con ≠ .tuple 0) (hone : con ≠ .tuple 1) :
      IsName a (.special con)

/-- Splitting a list behind the last member that fails a test. -/
theorem rtakeWhile_append {p : Char → Bool} {before cs : List Char}
    (hbefore : ∀ c ∈ before.getLast?, p c = false) (hcs : ∀ c ∈ cs, p c = true) :
    (before ++ cs).rtakeWhile p = cs ∧ (before ++ cs).rdropWhile p = before := by
  induction cs using List.reverseRecOn with
  | nil =>
    rw [List.append_nil, List.rtakeWhile_eq_nil_iff, List.rdropWhile_eq_self_iff]
    have hlast : ∀ hne : before ≠ [], ¬ p (before.getLast hne) = true := fun hne => by
      simp [hbefore _ (List.getLast?_eq_some_getLast hne)]
    exact ⟨hlast, hlast⟩
  | append_singleton cs c ih =>
    obtain ⟨htake, hdrop⟩ := ih fun d hd => hcs d (List.mem_append_left _ hd)
    have hc : p c = true := hcs c (by simp)
    rw [← List.append_assoc, List.rtakeWhile_concat_pos _ _ _ hc,
      List.rdropWhile_concat_pos _ _ _ hc, htake, hdrop]
    exact ⟨rfl, rfl⟩

namespace Alphabet

variable {a : Alphabet}

theorem IsIdent.isName {first : CharKind} (hfirst : first = .small ∨ first = .large) {s : String}
    (hs : a.IsIdent first s.toList) : a.IsName (.ident s) := by
  refine .ident hs.ne_nil (hs.head?_ne_quote ?_) (hs.forall_isWord ?_)
  · rcases hfirst with rfl | rfl <;> decide
  · rcases hfirst with rfl | rfl <;> decide

theorem IsOperator.isName {s : String} (hs : a.IsOperator s.toList)
    (hreserved : s ∉ reservedOperators) : a.IsName (.symbol s) := by
  have hne : ∀ t ∈ reservedOperators, s.toList ≠ t.toList :=
    fun t ht h => hreserved (String.toList_inj.mp h ▸ ht)
  exact .symbol hs (hne "->" (by decide)) (hne ":" (by decide))

theorem IsVar.isName {n : Name} (hn : a.IsVar n) : a.IsName n := by
  cases hn with
  | ident hs => exact hs.isName (.inl rfl)
  | symbol hs _ hreserved => exact hs.isName hreserved

theorem IsCon.isName {n : Name} (hn : a.IsCon n) : a.IsName n := by
  cases hn with
  | ident hs => exact hs.isName (.inr rfl)
  | symbol hs _ hreserved => exact hs.isName hreserved
  | special hzero hone => exact .special hzero hone

/-- The name of a variable or a constructor, with its module. -/
structure IsTerm (a : Alphabet) (q : QName) : Prop where
  name : a.IsVar q.name ∨ a.IsCon q.name
  qualified : a.IsQualified q

/-- Whether a name belongs to a constructor. -/
def isCon (a : Alphabet) : Name → Bool
  | .ident s => s.toList.head?.any fun c => a.kind c = .large
  | .symbol s => s.toList.head? = some ':'
  | .special _ => true

theorem isWord_of_isSymbol {c : Char} (hc : a.isSymbol c = true) : a.isWord c = false := by
  rw [← Bool.not_eq_true]
  intro h
  rw [isSymbol_of_isWord h] at hc
  contradiction

theorem isSymbol_of_asciiKind {c : Char} (hc : c.toNat < 128) (hkind : asciiKind c = .symbol) :
    a.isSymbol c = true := by
  rw [isSymbol, a.ascii c hc, hkind]
  rfl

theorem isSymbol_dot : a.isSymbol '.' = true := isSymbol_of_asciiKind (by decide) (by decide)

/-- No letter stands at the end of an operator. -/
theorem IsOperator.rtakeWhile_isWord {cs : List Char} (hcs : a.IsOperator cs) (before : List Char) :
    (before ++ cs).rtakeWhile a.isWord = [] := by
  have hlast : ∀ c ∈ (before ++ cs).getLast?, a.isWord c = false := by
    intro c hc
    rw [List.getLast?_append_of_ne_nil _ hcs.1] at hc
    exact isWord_of_isSymbol (hcs.2 c (List.mem_of_mem_getLast? hc))
  simpa using (@rtakeWhile_append _ _ [] hlast (by simp)).1

theorem readName_ident {s : String} (hne : s.toList ≠ []) (hs : ∀ c ∈ s.toList, a.isWord c = true) :
    a.readName s.toList = .unqualified (.ident s) := by
  obtain ⟨htake, hdrop⟩ := @rtakeWhile_append _ [] _ (by simp) hs
  rw [List.nil_append] at htake hdrop
  rw [readName, htake, if_neg hne, hdrop, if_pos rfl, String.ofList_toList]

theorem readName_qualified_ident {m : ModuleName} {s : String} (hne : s.toList ≠ [])
    (hs : ∀ c ∈ s.toList, a.isWord c = true) :
    a.readName (m.text.toList ++ '.' :: s.toList) = .qualified m (.ident s) := by
  have hdot : ∀ c ∈ (m.text.toList ++ ['.']).getLast?, a.isWord c = false := by
    simp [isWord_of_isSymbol isSymbol_dot]
  obtain ⟨htake, hdrop⟩ := rtakeWhile_append hdot hs
  rw [List.append_cons, readName, htake, if_neg hne, hdrop, if_neg (by simp), List.dropLast_concat,
    String.ofList_toList, String.ofList_toList]

theorem readName_operator {cs : List Char} (hcs : a.IsOperator cs) :
    a.readName cs = .unqualified (readOperator cs) := by
  have hdrop := (@rtakeWhile_append _ [] _ (by simp) hcs.2).2
  have hword := hcs.rtakeWhile_isWord []
  rw [List.nil_append] at hdrop hword
  rw [readName, if_pos hword, hdrop, if_pos rfl]

theorem readName_qualified_symbol {m : ModuleName} (hm : a.IsModule m) {s : String}
    (hs : a.IsOperator s.toList) :
    a.readName (m.text.toList ++ '.' :: s.toList) = .qualified m (.symbol s) := by
  obtain ⟨init, c, htext, hc⟩ := hm.exists_last
  have hlast : ∀ d ∈ m.text.toList.getLast?, a.isSymbol d = false := by
    simp [htext, isSymbol_of_isWord hc]
  obtain ⟨htake, hdrop⟩ := rtakeWhile_append hlast (List.forall_mem_cons.mpr ⟨isSymbol_dot, hs.2⟩)
  have hword := hs.rtakeWhile_isWord (m.text.toList ++ ['.'])
  rw [← List.append_cons] at hword
  rw [readName, if_pos hword, hdrop, if_neg (by simp [htext]), htake, List.tail_cons,
    String.ofList_toList, String.ofList_toList]

theorem isOperator_special {con : SpecialCon} (hcon : con.isSymbolic = true) :
    a.IsOperator con.text.toList ∧ readOperator con.text.toList = .special con := by
  cases con with
  | fn =>
    have hsymbols : ∀ c ∈ "->".toList, a.isSymbol c = true := by
      have hminus : a.isSymbol '-' = true := isSymbol_of_asciiKind (by decide) (by decide)
      have hgreater : a.isSymbol '>' = true := isSymbol_of_asciiKind (by decide) (by decide)
      simp [hminus, hgreater]
    exact ⟨⟨by decide, hsymbols⟩, by decide⟩
  | cons =>
    have hsymbols : ∀ c ∈ ":".toList, a.isSymbol c = true := by
      simp [isSymbol_of_asciiKind (c := ':') (by decide) (by decide)]
    exact ⟨⟨by decide, hsymbols⟩, by decide⟩
  | unit | list | tuple => contradiction

/-- A name is read back from its characters, if it consists of characters only. -/
theorem readName_letters {q : QName} (hq : a.IsQualified q) (hname : a.IsName q.name)
    (hspecial : ∀ con, q.name = .special con → con.isSymbolic = true) :
    a.readName (letters q) = plain q := by
  obtain ⟨qualifier, name⟩ := q
  cases hname with
  | ident hne _ hs =>
    cases qualifier with
    | none => exact readName_ident hne hs
    | some m => exact readName_qualified_ident hne hs
  | symbol hs hfn hcons =>
    cases qualifier with
    | none =>
      have hread := readName_operator hs
      rw [readOperator, if_neg hfn, if_neg hcons, String.ofList_toList] at hread
      exact hread
    | some m => exact readName_qualified_symbol (hq m rfl).1 hs
  | @special con =>
    obtain ⟨hoperator, hcon⟩ := isOperator_special (a := a) (hspecial con rfl)
    have hread := readName_operator hoperator
    rw [hcon] at hread
    cases qualifier <;> exact hread

theorem IsIdent.isCon_eq {first : CharKind} {s : String} (hs : a.IsIdent first s.toList) :
    a.isCon (.ident s) = (first = .large : Bool) := by
  obtain ⟨c, rest, htext, hc, -⟩ := hs
  rw [isCon, htext, List.head?_cons, Option.any_some, hc]

theorem IsVar.isCon_eq {n : Name} (hn : a.IsVar n) : a.isCon n = false := by
  cases hn with
  | ident hs => rw [hs.isCon_eq]; rfl
  | symbol _ hcolon => simpa [isCon] using hcolon

theorem IsVar.plain_eq {q : QName} (hq : a.IsVar q.name) : plain q = q := by
  obtain ⟨qualifier, name⟩ := q
  cases hq <;> rfl

theorem IsCon.isCon_eq {n : Name} (hn : a.IsCon n) : a.isCon n = true := by
  cases hn with
  | ident hs => rw [hs.isCon_eq]; rfl
  | symbol _ hcolon => simpa [isCon] using hcolon
  | special => rfl

end Alphabet

end Offside.Reading
