import Offside.Proofs.Alphabet
import Offside.Proofs.LiteralReading

/-!
# Bracketed text

Text as a sequence of characters, literals in quotes, and brackets with what stands between them.
Where quotes are not part of names by accident, a text can be taken apart in one way only. What has
been taken apart is read from the inside out: a bracket is replaced by what it means, so between two
brackets there is only a row of characters and of things already read, which spaces divide into
words and commas into parts.
-/
namespace Offside.Reading

open Offside.Syntax Offside.Text

inductive Bracket where
  | round
  | square
  | curly
deriving DecidableEq

namespace Bracket

def opening : Bracket → Char
  | round => '('
  | square => '['
  | curly => '\x7b'

def closing : Bracket → Char
  | round => ')'
  | square => ']'
  | curly => '\x7d'

theorem opening_injective {b b' : Bracket} (h : b.opening = b'.opening) : b = b' := by
  cases b <;> cases b' <;> simp_all [opening]

end Bracket

/-- A literal in quotes. -/
inductive Quoted where
  | char (c : Char)
  | string (s : String)

def Quoted.text : Quoted → List Char
  | .char c => (charLiteral c).toList
  | .string s => (stringLiteral s).toList

inductive TokenTree where
  | chr (c : Char)
  | quoted (q : Quoted)
  | group (b : Bracket) (inner : List TokenTree)

namespace TokenTree

mutual

def text : TokenTree → List Char
  | .chr c => [c]
  | .quoted q => q.text
  | .group b inner => b.opening :: texts inner ++ [b.closing]

def texts : List TokenTree → List Char
  | [] => []
  | t :: ts => t.text ++ texts ts

end

@[simp] theorem texts_nil : texts [] = [] := by rw [texts]

@[simp] theorem texts_cons (t : TokenTree) (ts : List TokenTree) :
    texts (t :: ts) = t.text ++ texts ts := by rw [texts]

@[simp] theorem text_chr (c : Char) : (chr c).text = [c] := by rw [text]

@[simp] theorem text_quoted (q : Quoted) : (quoted q).text = q.text := by rw [text]

@[simp] theorem text_group (b : Bracket) (inner : List TokenTree) :
    (group b inner).text = b.opening :: texts inner ++ [b.closing] := by
  rw [text]

@[simp] theorem texts_append (ts us : List TokenTree) :
    texts (ts ++ us) = texts ts ++ texts us := by
  induction ts with
  | nil => simp
  | cons t ts ih => simp [ih]

@[simp] theorem texts_chars (cs : List Char) : texts (cs.map chr) = cs := by
  induction cs with
  | nil => simp
  | cons c cs ih => simp [ih]

theorem texts_intercalate (separator : List TokenTree) (ws : List (List TokenTree)) :
    texts (List.intercalate separator ws) = List.intercalate (texts separator) (ws.map texts) := by
  induction ws with
  | nil => simp
  | cons w ws ih =>
    cases ws with
    | nil => simp
    | cons v vs => simp_all [List.intercalate_cons_cons]

/-- The characters that do not stand for themselves. -/
def special : List Char := ['(', ')', '[', ']', '\x7b', '\x7d', '"']

/-- A quote stands after a letter or digit exactly where it belongs to a name. The flag says whether
one stands before the first tree. -/
inductive Valid (a : Alphabet) : Bool → List TokenTree → Prop where
  | nil {after : Bool} : Valid a after []
  | chr {after : Bool} {c : Char} {ts : List TokenTree} (hc : c ∉ special)
      (hquote : c = '\'' → after = true)
      (hts : Valid a (a.isWord c) ts) : Valid a after (.chr c :: ts)
  | string {after : Bool} {s : String} {ts : List TokenTree} (hts : Valid a false ts) :
      Valid a after (.quoted (.string s) :: ts)
  | char {c : Char} {ts : List TokenTree} (hts : Valid a false ts) :
      Valid a false (.quoted (.char c) :: ts)
  | group {after : Bool} {b : Bracket} {inner ts : List TokenTree} (hinner : Valid a false inner)
      (hts : Valid a false ts) : Valid a after (.group b inner :: ts)

/-- Nothing, or the end of a bracket. -/
def Ends (cs : List Char) : Prop := ∀ c ∈ cs.head?, ∃ b : Bracket, c = b.closing

theorem ends_nil : Ends [] := by simp [Ends]

theorem ends_closing (b : Bracket) (cs : List Char) : Ends (b.closing :: cs) := by
  intro c hc
  exact ⟨b, by simpa using hc.symm⟩

variable {a : Alphabet} {after : Bool}

theorem exists_char_text (c : Char) : ∃ body, (Quoted.char c).text = '\'' :: body := by
  obtain ⟨body, htext, -⟩ := readChar_charLiteral c
  exact ⟨body, htext⟩

theorem string_text (s : String) :
    (Quoted.string s).text = '"' :: (stringBody s.toList ++ ['"']) := by
  simp [Quoted.text, stringLiteral]

theorem closing_mem_special (b : Bracket) : b.closing ∈ special := by
  cases b <;> decide

theorem opening_mem_special (b : Bracket) : b.opening ∈ special := by
  cases b <;> decide

theorem Valid.not_ends {t : TokenTree} {ts : List TokenTree} (h : Valid a after (t :: ts))
    {rest rest' : List Char} (htext : texts (t :: ts) ++ rest = rest') : ¬ Ends rest' := by
  subst htext
  intro hends
  cases h with
  | @chr _ c _ hc =>
    obtain ⟨b, rfl⟩ := hends c (by simp)
    exact hc (closing_mem_special b)
  | @string _ s =>
    obtain ⟨b, hb⟩ := hends '"' (by simp [string_text])
    cases b <;> simp [Bracket.closing] at hb
  | @char c =>
    obtain ⟨body, hbody⟩ := exists_char_text c
    obtain ⟨b, hb⟩ := hends '\'' (by simp [hbody])
    cases b <;> simp [Bracket.closing] at hb
  | @group _ b =>
    obtain ⟨b', hb⟩ := hends b.opening (by simp)
    cases b <;> cases b' <;> simp [Bracket.opening, Bracket.closing] at hb

/-- A text is taken apart in one way only. -/
theorem Valid.unique {ts us : List TokenTree} {rest rest' : List Char} (hts : Valid a after ts)
    (hus : Valid a after us) (hrest : Ends rest) (hrest' : Ends rest')
    (h : texts ts ++ rest = texts us ++ rest') : ts = us ∧ rest = rest' := by
  -- the first character decides which tree stands first
  induction hts generalizing us rest rest' with
  | nil =>
    cases us with
    | nil => exact ⟨rfl, by simpa using h⟩
    | cons u us => exact absurd hrest (hus.not_ends h.symm)
  | @chr after c ts hc hquote hts ih =>
    cases hus with
    | nil => exact absurd hrest' ((Valid.chr hc hquote hts).not_ends h)
    | chr _ _ hus =>
      obtain ⟨rfl, htail⟩ := by simpa using h
      obtain ⟨rfl, rfl⟩ := ih hus hrest hrest' htail
      exact ⟨rfl, rfl⟩
    | string =>
      obtain ⟨rfl, -⟩ := by simpa [string_text] using h
      exact absurd (by decide) hc
    | @char d =>
      obtain ⟨body, hbody⟩ := exists_char_text d
      obtain ⟨hc, -⟩ := by simpa [hbody] using h
      exact absurd (hquote hc) (by decide)
    | @group _ b =>
      obtain ⟨rfl, -⟩ := by simpa using h
      exact absurd (opening_mem_special b) hc
  | @string after s ts hts ih =>
    cases hus with
    | nil => exact absurd hrest' ((@Valid.string a after s ts hts).not_ends h)
    | chr hc =>
      obtain ⟨rfl, -⟩ := by simpa [string_text] using h
      exact absurd (by decide) hc
    | @string _ s' us hus =>
      have hread := congrArg readString (by simpa [string_text] using h)
      rw [readString_stringBody, readString_stringBody] at hread
      obtain ⟨hs, htail⟩ := by simpa using hread
      obtain ⟨rfl, rfl⟩ := ih hus hrest hrest' htail
      rw [String.toList_inj.mp hs]
      exact ⟨rfl, rfl⟩
    | @char d =>
      obtain ⟨body, hbody⟩ := exists_char_text d
      simp [string_text, hbody] at h
    | @group _ b => cases b <;> simp [string_text, Bracket.opening] at h
  | @char c ts hts ih =>
    obtain ⟨body, hbody, hread⟩ : ∃ body, (Quoted.char c).text = _ ∧ _ := readChar_charLiteral c
    cases hus with
    | nil => exact absurd hrest' ((Valid.char hts).not_ends h)
    | chr hc hquote =>
      obtain ⟨hc, -⟩ := by simpa [hbody] using h
      exact absurd (hquote hc.symm) (by decide)
    | string => simp [string_text, hbody] at h
    | @char c' us hus =>
      obtain ⟨body', hbody', hread'⟩ : ∃ body, (Quoted.char c').text = _ ∧ _ :=
        readChar_charLiteral c'
      have hsame := congrArg readChar (by simpa [hbody, hbody'] using h)
      rw [hread, hread'] at hsame
      obtain ⟨rfl, htail⟩ := by simpa using hsame
      obtain ⟨rfl, rfl⟩ := ih hus hrest hrest' htail
      exact ⟨rfl, rfl⟩
    | @group _ b => cases b <;> simp [hbody, Bracket.opening] at h
  | @group after b inner ts hinner hts ihinner ih =>
    cases hus with
    | nil => exact absurd hrest' ((@Valid.group a after b inner ts hinner hts).not_ends h)
    | chr hc =>
      obtain ⟨rfl, -⟩ := by simpa using h
      exact absurd (opening_mem_special b) hc
    | string => cases b <;> simp [string_text, Bracket.opening] at h
    | @char c =>
      obtain ⟨body, hbody⟩ := exists_char_text c
      cases b <;> simp [hbody, Bracket.opening] at h
    | @group _ b' inner' us hinner' hus =>
      obtain ⟨hb, hbody⟩ := by simpa using h
      obtain rfl := Bracket.opening_injective hb
      obtain ⟨rfl, htail⟩ := ihinner hinner' (ends_closing b _) (ends_closing b _) hbody
      obtain ⟨rfl, rfl⟩ := ih hus hrest hrest' (List.cons.inj htail).2
      exact ⟨rfl, rfl⟩

/-! ### Valid rows -/

/-- A character that stands for itself and ends a name. -/
structure IsMark (a : Alphabet) (c : Char) : Prop where
  notMem_special : c ∉ special
  ne_quote : c ≠ '\''
  isWord_eq : a.isWord c = false

theorem isMark_of_ascii {c : Char}
    (hc : c.toNat < 128 ∧ c ∉ special ∧ c ∉ ['\'', '_'] ∧ asciiKind c ∈ [.symbol, .other]) :
    IsMark a c := by
  obtain ⟨hascii, hspecial, hplain, hkind⟩ := hc
  simp only [List.mem_cons, List.not_mem_nil, or_false, not_or] at hplain hkind
  refine ⟨hspecial, hplain.1, ?_⟩
  rw [Alphabet.isWord_of_ascii hascii]
  rcases hkind with hkind | hkind <;> simp [hkind, hplain]

theorem asciiKind_of_mem_special {c : Char} (hc : c ∈ '\'' :: special) :
    c.toNat < 128 ∧ asciiKind c = .other := by
  have hall : ('\'' :: special).all fun d => d.toNat < 128 && asciiKind d = .other := by decide
  simpa using List.all_eq_true.mp hall c hc

theorem notMem_special_of_isWord {c : Char} (hc : a.isWord c = true) : c ∉ special := by
  intro hspecial
  obtain ⟨hascii, hkind⟩ := asciiKind_of_mem_special (List.mem_cons_of_mem _ hspecial)
  have hplain : c ≠ '_' ∧ c ≠ '\'' := by
    constructor <;>
    · rintro rfl
      exact absurd hspecial (by decide)
  rw [Alphabet.isWord_of_ascii hascii] at hc
  simp [hkind, hplain] at hc

theorem IsMark.ne_of_isWord {c d : Char} (hd : IsMark a d) (hc : a.isWord c = true) : c ≠ d := by
  rintro rfl
  rw [hd.isWord_eq] at hc
  contradiction

theorem isMark_of_isSymbol {c : Char} (hc : a.isSymbol c = true) : IsMark a c := by
  have hne : c ∉ '\'' :: special := by
    intro hmem
    obtain ⟨hascii, hkind⟩ := asciiKind_of_mem_special hmem
    rw [Alphabet.isSymbol_of_ascii hascii] at hc
    simp [hkind] at hc
  rw [List.mem_cons, not_or] at hne
  exact ⟨hne.2, hne.1, Alphabet.isWord_of_isSymbol hc⟩

namespace Valid

variable {ts us : List TokenTree}

theorem mark {c : Char} (hc : IsMark a c) (hts : Valid a false ts) : Valid a after (.chr c :: ts) :=
  .chr hc.notMem_special (fun h => absurd h hc.ne_quote) (hc.isWord_eq ▸ hts)

/-- A row that is valid wherever it stands can stand behind another. -/
theorem append (hts : Valid a after ts) (hus : ∀ after, Valid a after us) :
    Valid a after (ts ++ us) := by
  induction hts with
  | nil => exact hus _
  | chr hc hquote _ ih => exact .chr hc hquote ih
  | string _ ih => exact .string ih
  | char _ ih => exact .char ih
  | group hinner _ _ ih => exact .group hinner ih

theorem word {cs : List Char} (hcs : ∀ c ∈ cs, a.isWord c = true) (hts : Valid a true ts) :
    Valid a true (cs.map TokenTree.chr ++ ts) := by
  induction cs with
  | nil => exact hts
  | cons c cs ih =>
    obtain ⟨hc, hcs⟩ := List.forall_mem_cons.mp hcs
    exact .chr (notMem_special_of_isWord hc) (fun _ => rfl) (hc ▸ ih hcs)

/-- A name does not start with a quote. -/
theorem ident {cs : List Char} (hne : cs ≠ []) (hquote : cs.head? ≠ some '\'')
    (hcs : ∀ c ∈ cs, a.isWord c = true) (hts : Valid a true ts) :
    Valid a after (cs.map TokenTree.chr ++ ts) := by
  obtain ⟨c, cs, rfl⟩ := List.exists_cons_of_ne_nil hne
  obtain ⟨hc, hcs⟩ := List.forall_mem_cons.mp hcs
  have hhead : c ≠ '\'' := by simpa using hquote
  exact .chr (notMem_special_of_isWord hc) (fun h => absurd h hhead) (hc ▸ word hcs hts)

theorem symbols {cs : List Char} (hcs : ∀ c ∈ cs, a.isSymbol c = true)
    (hts : ∀ after, Valid a after ts) : Valid a after (cs.map TokenTree.chr ++ ts) := by
  induction cs generalizing after with
  | nil => exact hts _
  | cons c cs ih =>
    obtain ⟨hc, hcs⟩ := List.forall_mem_cons.mp hcs
    exact .mark (isMark_of_isSymbol hc) (ih hcs)

end Valid

end TokenTree

end Offside.Reading
