import Offside.Pretty.Name
import Offside.Proofs.Wording

/-!
# Names and numbers as words

A name or a number is printed as one word. Between its characters there is nothing that could divide
it, and what stands in brackets or backquotes is seen from its first character.
-/
namespace Offside.Reading

open Offside.Doc Offside.Syntax TokenTree

/-- The names of special constructors, some of which are brackets. -/
def specialTrees : SpecialCon → List TokenTree
  | .unit => [.group .round []]
  | .list => [.group .square []]
  | .tuple arity => [.group .round (List.replicate (arity.toNat - 1) (.chr ','))]
  | con => con.text.toList.map .chr

/-- The name by itself. -/
def bareTrees (q : QName) : List TokenTree :=
  match q.name with
  | .special con => specialTrees con
  | _ => (letters q).map .chr

/-- The name as an operand. -/
def nameTrees (q : QName) : List TokenTree :=
  if q.isSymbolic then [.group .round (bareTrees q)] else bareTrees q

/-- The name between two operands. -/
def infixTrees (q : QName) : List TokenTree :=
  if q.isSymbolic then bareTrees q else .chr '\x60' :: bareTrees q ++ [.chr '\x60']

/-- A name that can be read back, with its module. -/
structure Alphabet.IsQName (a : Alphabet) (q : QName) : Prop where
  name : a.IsName q.name
  qualified : a.IsQualified q

section

variable {a : Alphabet}

theorem solid_of_isWord {c : Char} (hc : a.isWord c = true) : c ≠ ' ' ∧ c ≠ ',' :=
  ⟨IsMark.ne_of_isWord (isMark_of_ascii (by decide)) hc,
    IsMark.ne_of_isWord (isMark_of_ascii (by decide)) hc⟩

theorem solid_of_isSymbol {c : Char} (hc : a.isSymbol c = true) : c ≠ ' ' ∧ c ≠ ',' := by
  have hother : ∀ d : Char, d.toNat < 128 → asciiKind d = .other → c ≠ d := by
    rintro d hascii hkind rfl
    rw [Alphabet.isSymbol_of_ascii hascii, hkind] at hc
    contradiction
  exact ⟨hother _ (by decide) (by decide), hother _ (by decide) (by decide)⟩

theorem isMark_dot : IsMark a '.' := isMark_of_ascii (by decide)

theorem valid_parts {parts : List (List Char)} (hne : parts ≠ [])
    (hparts : ∀ p ∈ parts, a.IsIdent .large p) {after : Bool} {ts : List TokenTree}
    (hts : Valid a true ts) : Valid a after ((List.intercalate ['.'] parts).map .chr ++ ts) := by
  induction parts generalizing after with
  | nil => exact absurd rfl hne
  | cons p parts ih =>
    obtain ⟨hp, hparts⟩ := List.forall_mem_cons.mp hparts
    have hident : ∀ {us : List TokenTree}, Valid a true us → Valid a after (p.map .chr ++ us) :=
      .ident hp.ne_nil (hp.head?_ne_quote (by decide)) (hp.forall_isWord (by decide))
    cases parts with
    | nil => simpa using hident hts
    | cons p' parts =>
      rw [List.intercalate_cons_cons, List.map_append, List.map_append, List.append_assoc,
        List.append_assoc]
      exact hident (.mark isMark_dot (ih (by simp) hparts))

/-- What stands before a name is valid if the name is. -/
theorem valid_module {m : ModuleName} (hm : a.IsModule m) {after : Bool} {ts : List TokenTree}
    (hts : Valid a false ts) : Valid a after ((m.text.toList ++ ['.']).map .chr ++ ts) := by
  obtain ⟨parts, hne, hparts, htext⟩ := hm
  rw [htext, List.map_append, List.append_assoc]
  exact valid_parts hne hparts (.mark isMark_dot hts)

/-- The name of a module holds letters and dots. -/
theorem isWord_or_dot_of_mem_module {m : ModuleName} (hm : a.IsModule m) {c : Char}
    (hc : c ∈ m.text.toList) : a.isWord c = true ∨ c = '.' := by
  obtain ⟨parts, hne, hparts, htext⟩ := hm
  rw [htext] at hc
  rcases mem_of_mem_intercalate hc with hc | ⟨p, hp, hc⟩
  · exact .inr (List.mem_singleton.mp hc)
  · exact .inl ((hparts p hp).forall_isWord (by decide) c hc)

theorem solid_module {m : ModuleName} (hm : a.IsModule m) :
    ∀ c ∈ m.text.toList ++ ['.'], c ≠ ' ' ∧ c ≠ ',' := by
  rw [List.forall_mem_append]
  refine ⟨fun c hc => ?_, by simp⟩
  rcases isWord_or_dot_of_mem_module hm hc with hc | rfl
  · exact solid_of_isWord hc
  · simp

theorem isWord_ident {s : String} (hs : a.IsName (.ident s)) : IsWord a (s.toList.map .chr) := by
  cases hs with
  | ident hne hquote hs =>
    refine ⟨by simpa using Valid.ident hne hquote hs .nil, by simpa using hne, ?_⟩
    rw [List.forall_mem_map]
    exact fun c hc => by simpa using solid_of_isWord (hs c hc)

theorem isWord_operator {cs : List Char} (hcs : a.IsOperator cs) : IsWord a (cs.map .chr) := by
  refine ⟨by simpa using Valid.symbols hcs.2 fun _ => .nil, by simpa using hcs.1, ?_⟩
  rw [List.forall_mem_map]
  exact fun c hc => by simpa using solid_of_isSymbol (hcs.2 c hc)

theorem isWord_qualified {m : ModuleName} (hm : a.IsModule m) {w : List TokenTree}
    (hw : IsWord a w) : IsWord a ((m.text.toList ++ ['.']).map .chr ++ w) := by
  refine ⟨valid_module hm hw.valid, by simp, List.forall_mem_append.mpr ⟨?_, hw.solid⟩⟩
  rw [List.forall_mem_map]
  exact fun c hc => by simpa using solid_module hm c hc

theorem isWord_specialTrees (con : SpecialCon) : IsWord a (specialTrees con) := by
  have hcomma : IsMark a ',' := isMark_of_ascii (by decide)
  have hcommas : ∀ n, Valid a false (List.replicate n (.chr ',')) := by
    intro n
    induction n with
    | zero => exact .nil
    | succ n ih => exact .mark hcomma ih
  cases con with
  | unit => exact .group _ .nil
  | list => exact .group _ .nil
  | tuple arity => exact .group _ (hcommas _)
  | fn => exact isWord_operator (@Alphabet.isOperator_special a .fn rfl).1
  | cons => exact isWord_operator (@Alphabet.isOperator_special a .cons rfl).1

theorem spells_specialTrees (con : SpecialCon) :
    (text con.text).Spells (texts (specialTrees con)) := by
  have hspells : ∀ s : String, s ≠ "" → texts (specialTrees con) = s.toList →
      (text s).Spells (texts (specialTrees con)) := fun s hs htext => htext ▸ .ofText hs
  cases con with
  | unit =>
    exact hspells _ (by decide)
      (by simp [specialTrees, SpecialCon.text, Bracket.opening, Bracket.closing])
  | list =>
    exact hspells _ (by decide)
      (by simp [specialTrees, SpecialCon.text, Bracket.opening, Bracket.closing])
  | fn => exact hspells _ (by decide) (by simp [specialTrees])
  | cons => exact hspells _ (by decide) (by simp [specialTrees])
  | tuple arity =>
    refine hspells _ (by simp [SpecialCon.text]) ?_
    have hcommas : texts (List.replicate (arity.toNat - 1) (.chr ',')) =
        List.replicate (arity.toNat - 1) ',' := by
      rw [← texts_chars (List.replicate _ ','), List.map_replicate]
    simp [specialTrees, SpecialCon.text, Bracket.opening, Bracket.closing, hcommas]

/-- A text behind the name of a module, if there is one. -/
theorem worded_qualified {s : String} (hs : IsWord a (s.toList.map .chr)) :
    Worded a (text s) [s.toList.map .chr] ∧ ∀ {m : ModuleName}, a.IsModule m →
      Worded a (text (m.text ++ ".") ++ text s) [(m.text.toList ++ '.' :: s.toList).map .chr] := by
  have hne : s ≠ "" := by
    rintro rfl
    exact hs.ne_nil rfl
  refine ⟨.word (by simpa using Spells.ofText hne) hs, fun {m} hm => .word ?_ ?_⟩
  · have hmodule : m.text ++ "." ≠ "" := by simp
    simpa using (Spells.ofText hmodule).append (.ofText hne)
  · simpa using isWord_qualified hm hs

/-- A name by itself is one word. -/
theorem worded_bare {q : QName} (hq : a.IsQName q) : Worded a q.bare [bareTrees q] := by
  obtain ⟨qualifier, name⟩ := q
  obtain ⟨hname, hqualified⟩ := hq
  have hletters : ∀ {s : String}, (name = .ident s ∨ name = .symbol s) →
      IsWord a (s.toList.map .chr) →
      Worded a (QName.bare ⟨qualifier, name⟩) [bareTrees ⟨qualifier, name⟩] := by
    rintro s (rfl | rfl) hs
    · cases qualifier with
      | none => exact (worded_qualified hs).1
      | some m => exact (worded_qualified hs).2 (hqualified m rfl).1
    · cases qualifier with
      | none => exact (worded_qualified hs).1
      | some m => exact (worded_qualified hs).2 (hqualified m rfl).1
  cases name with
  | ident s => exact hletters (.inl rfl) (isWord_ident hname)
  | symbol s =>
    cases hname with
    | symbol hs => exact hletters (.inr rfl) (isWord_operator hs)
  | special con =>
    have hspecial := Worded.word (spells_specialTrees con) (isWord_specialTrees (a := a) con)
    cases qualifier with
    | none => exact hspecial
    | some m =>
      obtain rfl : m = .prelude := (hqualified m rfl).2 con rfl
      exact hspecial

theorem worded_doc {q : QName} (hq : a.IsQName q) : Worded a q.doc [nameTrees q] := by
  have hbare := worded_bare hq
  unfold QName.doc nameTrees
  cases q.isSymbolic with
  | false => exact hbare
  | true => simpa [parensIf, joinWords] using hbare.parens

theorem worded_infixDoc {q : QName} (hq : a.IsQName q) : Worded a q.infixDoc [infixTrees q] := by
  have hbare := worded_bare hq
  unfold QName.infixDoc infixTrees
  cases q.isSymbolic with
  | false =>
    have htick : IsMark a '\x60' := isMark_of_ascii (by decide)
    have hword : IsWord a (bareTrees q) := hbare.isWord _ (by simp)
    refine .word ?_ (.mark htick (by decide) (hword.append (fun _ => .mark htick .nil) (by simp)))
    have hspells : (char '\x60').Spells ['\x60'] := .ofText (s := "\x60") (by decide)
    simpa [backquoted, joinWords] using (hspells.append hbare.spells).append hspells
  | true => exact hbare

theorem bareTrees_of_isSymbolic {q : QName} (hq : q.isSymbolic = true) :
    bareTrees q = (letters q).map .chr := by
  obtain ⟨qualifier, name⟩ := q
  cases name with
  | ident s => rfl
  | symbol s => rfl
  | special con =>
    cases con with
    | fn => cases qualifier <;> rfl
    | cons => cases qualifier <;> rfl
    | unit | list | tuple => contradiction

/-- An identifier with its module holds letters and dots. -/
theorem isWord_or_dot_of_mem_letters {q : QName} (hq : a.IsQName q) {s : String}
    (hs : q.name = .ident s) {c : Char} (hc : c ∈ letters q) : a.isWord c = true ∨ c = '.' := by
  obtain ⟨qualifier, name⟩ := q
  obtain rfl : name = .ident s := hs
  cases hq.name with
  | ident _ _ hword =>
    cases qualifier with
    | none => exact .inl (hword c hc)
    | some m =>
      rcases List.mem_append.mp hc with hc | hc
      · exact isWord_or_dot_of_mem_module (hq.qualified m rfl).1 hc
      · rcases List.mem_cons.mp hc with rfl | hc
        · exact .inr rfl
        · exact .inl (hword c hc)

/-- An identifier ends with a letter, whatever stands before it. -/
theorem exists_getLast?_letters {q : QName} (hq : a.IsQName q) {s : String}
    (hs : q.name = .ident s) : ∃ c, (letters q).getLast? = some c ∧ a.isWord c = true := by
  obtain ⟨qualifier, name⟩ := q
  obtain rfl : name = .ident s := hs
  cases hq.name with
  | ident hne _ hword =>
    refine ⟨s.toList.getLast hne, ?_, hword _ (List.getLast_mem hne)⟩
    cases qualifier with
    | none => exact List.getLast?_eq_some_getLast hne
    | some m =>
      change (m.text.toList ++ '.' :: s.toList).getLast? = _
      rw [List.append_cons, List.getLast?_append_of_ne_nil _ hne, List.getLast?_eq_some_getLast hne]

theorem exists_getLast?_of_isSymbolic {q : QName} (hq : a.IsQName q)
    (hsymbolic : q.isSymbolic = true) :
    ∃ c, (letters q).getLast? = some c ∧ a.isSymbol c = true := by
  have hlast : ∀ {cs : List Char}, a.IsOperator cs → ∀ before,
      ∃ c, (before ++ cs).getLast? = some c ∧ a.isSymbol c = true := by
    intro cs hcs before
    exact ⟨cs.getLast hcs.1,
      by
        rw [List.getLast?_append_of_ne_nil _ hcs.1, List.getLast?_eq_some_getLast hcs.1],
          hcs.2 _ (List.getLast_mem _)⟩
  obtain ⟨qualifier, name⟩ := q
  cases name with
  | ident s => contradiction
  | symbol s =>
    cases hq.name with
    | symbol hs =>
      cases qualifier with
      | none => exact hlast hs []
      | some m => simpa [letters] using hlast hs (m.text.toList ++ ['.'])
  | special con =>
    have hcon := (@Alphabet.isOperator_special a con hsymbolic).1
    cases qualifier with
    | none => exact hlast hcon []
    | some m => exact hlast hcon []

theorem Alphabet.IsTerm.isQName {q : QName} (hq : a.IsTerm q) : a.IsQName q :=
  ⟨hq.name.elim IsVar.isName IsCon.isName, hq.qualified⟩

theorem exists_head?_module {m : ModuleName} (hm : a.IsModule m) :
    ∃ c, (∀ cs, (m.text.toList ++ cs).head? = some c) ∧ a.kind c = .large := by
  obtain ⟨parts, hne, hparts, htext⟩ := hm
  obtain ⟨p, parts, rfl⟩ := List.exists_cons_of_ne_nil hne
  obtain ⟨c, rest, rfl, hc, -⟩ := hparts p (by simp)
  refine ⟨c, fun cs => ?_, hc⟩
  cases parts with
  | nil => simp [htext]
  | cons p' parts => simp [htext, List.intercalate_cons_cons]

/-- An identifier starts with a letter, and so does a module before it. -/
theorem exists_head?_letters {q : QName} (hq : a.IsTerm q) {s : String}
    (hname : q.name = .ident s) :
    ∃ c, (letters q).head? = some c ∧ (a.kind c = .small ∨ a.kind c = .large) := by
  obtain ⟨qualifier, name⟩ := q
  obtain rfl : name = .ident s := hname
  cases qualifier with
  | none =>
    have hs : a.IsIdent .small s.toList ∨ a.IsIdent .large s.toList := by
      rcases hq.name with hname | hname
      · cases hname with
        | ident hs => exact .inl hs
      · cases hname with
        | ident hs => exact .inr hs
    rcases hs with ⟨c, rest, htext, hc, -⟩ | ⟨c, rest, htext, hc, -⟩
    · exact ⟨c, by simp [letters, nameLetters, htext], .inl hc⟩
    · exact ⟨c, by simp [letters, nameLetters, htext], .inr hc⟩
  | some m =>
    obtain ⟨c, hhead, hc⟩ := exists_head?_module (hq.qualified m rfl).1
    exact ⟨c, hhead _, .inr hc⟩

/-- An operator consists of symbols, or starts with the capital of a module. -/
theorem isOperator_or_head?_letters {q : QName} (hq : a.IsQName q)
    (hsymbolic : q.isSymbolic = true) :
    a.IsOperator (letters q) ∨ ∃ c, (letters q).head? = some c ∧ a.kind c = .large := by
  obtain ⟨qualifier, name⟩ := q
  cases name with
  | ident s => contradiction
  | symbol s =>
    cases hq.name with
    | symbol hs =>
      cases qualifier with
      | none => exact .inl hs
      | some m =>
        obtain ⟨c, hhead, hc⟩ := exists_head?_module (hq.qualified m rfl).1
        exact .inr ⟨c, hhead _, hc⟩
  | special con =>
    have hcon := (@Alphabet.isOperator_special a con hsymbolic).1
    cases qualifier with
    | none => exact .inl hcon
    | some m => exact .inl hcon

theorem readName_of_isSymbolic {q : QName} (hq : a.IsQName q) (hsymbolic : q.isSymbolic = true) :
    a.readName (letters q) = plain q := by
  apply Alphabet.readName_letters hq.qualified hq.name
  intro con hcon
  rwa [QName.isSymbolic, hcon] at hsymbolic

/-! ### Literals -/

/-- A literal without a sign. -/
inductive Constant where
  | char (c : Char)
  | string (s : String)
  | number (n : Nat)

def Quoted.constant : Quoted → Constant
  | .char c => .char c
  | .string s => .string s

theorem isWord_of_isDigit {c : Char} (hc : c.isDigit = true) : a.isWord c = true := by
  simp [Alphabet.isWord, Alphabet.kind_of_isDigit hc]

theorem forall_isWord_toDigits (n : Nat) : ∀ c ∈ Nat.toDigits 10 n, a.isWord c = true := fun _ hc =>
  isWord_of_isDigit (Nat.isDigit_of_mem_toDigits (by decide) (by decide) hc)

/-- A number starts and ends with a digit. -/
theorem exists_ends_toDigits (n : Nat) : ∃ c d, (Nat.toDigits 10 n).head? = some c ∧
    (Nat.toDigits 10 n).getLast? = some d ∧ c.isDigit = true ∧ d.isDigit = true := by
  have hne : Nat.toDigits 10 n ≠ [] := Nat.toDigits_ne_nil
  have hdigit : ∀ c ∈ Nat.toDigits 10 n, c.isDigit = true := fun c hc =>
    Nat.isDigit_of_mem_toDigits (by decide) (by decide) hc
  exact ⟨_, _, List.head?_eq_some_head hne, List.getLast?_eq_some_getLast hne,
    hdigit _ (List.head_mem hne), hdigit _ (List.getLast_mem hne)⟩

theorem isWord_digits (n : Nat) : IsWord a ((Nat.toDigits 10 n).map .chr) := by
  have hquote : (Nat.toDigits 10 n).head? ≠ some '\'' := by
    intro h
    have hdigit := Nat.isDigit_of_mem_toDigits (by decide) (by decide) (List.mem_of_head? h)
    exact absurd hdigit (by decide)
  refine ⟨by simpa using Valid.ident Nat.toDigits_ne_nil hquote (forall_isWord_toDigits n) .nil,
    by simp, ?_⟩
  rw [List.forall_mem_map]
  exact fun c hc => by simpa using solid_of_isWord (forall_isWord_toDigits (a := a) n c hc)

/-- The word of a whole number. -/
def numberTrees (n : Int) : List TokenTree :=
  if n < 0 then .chr '-' :: (Nat.toDigits 10 n.natAbs).map .chr else
    (Nat.toDigits 10 n.natAbs).map .chr

theorem worded_int (n : Int) : Worded a (int n) [numberTrees n] := by
  have hdigits := isWord_digits (a := a) n.natAbs
  have htext : (Number.decimalText n).toList = texts (numberTrees n) := by
    unfold Number.decimalText numberTrees
    split_ifs <;> simp
  have hword : IsWord a (numberTrees n) := by
    unfold numberTrees
    split_ifs
    · exact .mark (isMark_of_ascii (by decide)) (by decide) hdigits
    · exact hdigits
  refine .word (htext ▸ .ofText ?_) hword
  unfold Number.decimalText
  split_ifs <;> simp

theorem worded_char (c : Char) : Worded a (text (Text.charLiteral c)) [[.quoted (.char c)]] := by
  have hne : Text.charLiteral c ≠ "" := by
    obtain ⟨body, hbody, -⟩ := Text.readChar_charLiteral c
    rintro h
    simp [h] at hbody
  exact .word (by simpa [Quoted.text] using Spells.ofText hne) ⟨.char .nil, by simp, by simp⟩

theorem worded_string (s : String) :
    Worded a (text (Text.stringLiteral s)) [[.quoted (.string s)]] := by
  have hne : Text.stringLiteral s ≠ "" := by simp [Text.stringLiteral]
  exact .word (by simpa [Quoted.text] using Spells.ofText hne) ⟨.string .nil, by simp, by simp⟩

end

end Offside.Reading
