import Offside.Proofs.LiteralReading

/-!
# The form of literals

Between its quotes a string literal is a sequence of plain characters and of backslashes with the
character that each of them belongs to. All of them are printable, and a double quote is only found
behind its backslash. So the literal can stand in any source text, and it is read up to its closing
quote and no further.
-/
namespace Offside.Text

/-- The characters of ASCII that leave a mark, and the space. -/
def isPrintable (c : Char) : Bool := ' ' ≤ c && c ≤ '~'

/-- Whether a double quote stands in a text without a backslash that belongs to it. -/
def hasBareQuote : List Char → Bool
  | [] => false
  | '\\' :: _ :: cs => hasBareQuote cs
  | c :: cs => c == '"' || hasBareQuote cs

/-- Decodes a string literal with both of its quotes and nothing behind it. -/
def decodeString (text : String) : Option String :=
  match text.toList with
  | '"' :: cs => ((readString cs).filter fun r => r.2.isEmpty).map fun r => String.ofList r.1
  | _ => none

/-- Decodes a character literal with both of its quotes and nothing behind it. -/
def decodeChar (text : String) : Option Char :=
  match text.toList with
  | '\'' :: cs => ((readChar cs).filter fun r => r.2.isEmpty).map fun r => r.1
  | _ => none

/-- A character that stands for itself, wherever it is. -/
def isPlain (c : Char) : Bool := isPrintable c && c != '\\' && c != '"'

theorem isPlain_of_isDigit {c : Char} (hc : c.isDigit) : isPlain c := by
  have hrange : '0' ≤ c ∧ c ≤ '9' := by simpa [Char.isDigit, Char.le_def] using hc
  have hplain : ∀ n, '0'.toNat ≤ n → n ≤ '9'.toNat → isPlain (Char.ofNat n) := by decide
  rw [← Char.ofNat_toNat c]
  exact hplain c.toNat hrange.1 hrange.2

/-- A printable text in which every double quote and every backslash belongs to a backslash before
it. -/
inductive Masked : List Char → Prop where
  | nil : Masked []
  | plain {c : Char} {cs : List Char} :
      isPrintable c → c ≠ '\\' → c ≠ '"' → Masked cs → Masked (c :: cs)
  | escaped {c : Char} {cs : List Char} : isPrintable c → Masked cs → Masked ('\\' :: c :: cs)

namespace Masked

variable {cs ds : List Char}

theorem append (hcs : Masked cs) (hds : Masked ds) : Masked (cs ++ ds) := by
  induction hcs with
  | nil => exact hds
  | plain hc hslash hquote _ ih => exact .plain hc hslash hquote ih
  | escaped hc _ ih => exact .escaped hc ih

theorem isPrintable (hcs : Masked cs) : ∀ c ∈ cs, isPrintable c := by
  induction hcs with
  | nil => simp
  | plain hc _ _ _ ih => exact List.forall_mem_cons.mpr ⟨hc, ih⟩
  | escaped hc _ ih => exact List.forall_mem_cons.mpr ⟨by decide, List.forall_mem_cons.mpr ⟨hc, ih⟩⟩

theorem hasBareQuote (hcs : Masked cs) : hasBareQuote cs = false := by
  induction hcs with
  | nil => rfl
  | plain _ hslash hquote _ ih => simp [Text.hasBareQuote, hslash, hquote, ih]
  | escaped _ _ ih => simpa [Text.hasBareQuote] using ih

theorem of_plain (hcs : cs.all isPlain) : Masked cs := by
  induction cs with
  | nil => exact .nil
  | cons c cs ih =>
    simp only [List.all_cons, isPlain, Bool.and_eq_true, bne_iff_ne] at hcs
    exact .plain hcs.1.1.1 hcs.1.1.2 hcs.1.2 (ih hcs.2)

/-- An escape by a name or a code. -/
theorem escape_plain (hne : cs ≠ []) (hcs : cs.all isPlain) : Masked ('\\' :: cs) := by
  obtain ⟨c, cs, rfl⟩ := List.exists_cons_of_ne_nil hne
  simp only [List.all_cons, isPlain, Bool.and_eq_true] at hcs
  exact .escaped hcs.1.1.1 (of_plain hcs.2)

theorem short {c : Char} (hc : Text.isPrintable c) : Masked ['\\', c] := .escaped hc .nil

/-- What keeps two characters apart is masked too. -/
theorem separator (p : Prop) [Decidable p] : Masked (if p then ['\\', '&'] else []) := by
  split
  · exact .short rfl
  · exact .nil

end Masked

theorem Spelled.masked {c : Char} {next : Option Char} {text : List Char} (h : Spelled next c text)
    (hc : c ≠ '"') : Masked text := by
  cases h with
  | plain hslash hlow hhigh => exact .plain (by simp [isPrintable, hlow, hhigh]) hslash hc .nil
  | @short _ d h =>
    have hkeys : ∀ p ∈ shortEscapes, isPrintable p.1 := by decide
    obtain ⟨before, after, hshort, -⟩ := List.lookup_eq_some_iff.mp h
    exact .short (hkeys (d, some c) (by simp [hshort]))
  | delete => exact .escape_plain (by simp) (by decide)
  | code =>
    refine .append (.escape_plain Nat.toDigits_ne_nil (List.all_eq_true.mpr fun d hd => ?_))
      (.separator _)
    exact isPlain_of_isDigit (Nat.isDigit_of_mem_toDigits (by decide) (by decide) hd)
  | control hcontrol _ =>
    have hplain : ∀ n < 32, (controlNames.getD n "").toList ≠ [] ∧
        (controlNames.getD n "").toList.all isPlain := by
      decide
    exact .escape_plain (hplain _ hcontrol).1 (hplain _ hcontrol).2
  | shiftOut => exact .append (.escape_plain (by simp) (by decide)) (.separator _)

theorem masked_stringBody (s : List Char) : Masked (stringBody s) := by
  induction s with
  | nil => exact .nil
  | cons c s ih =>
    rw [stringBody]
    split
    · exact .append (.short rfl) ih
    · exact .append ((spelled_escape c _).masked ‹_›) ih

theorem decodeString_stringLiteral (s : String) : decodeString (stringLiteral s) = some s := by
  simp [decodeString, stringLiteral, readString_stringBody]

theorem decodeChar_charLiteral (c : Char) : decodeChar (charLiteral c) = some c := by
  obtain ⟨body, htext, hread⟩ := readChar_charLiteral c
  have hbody : readChar body = some (c, []) := by simpa using hread []
  simp [decodeChar, htext, hbody]

/-- A string literal stands between two double quotes and has no other one without a backslash, all
its characters are printable, and what it stands for is read back from it. A character is read back
from its literal too. -/
theorem literals_decode_to_what_they_show (s : String) (c : Char) :
    (∃ body, (stringLiteral s).toList = '"' :: body ++ ['"'] ∧ hasBareQuote body = false) ∧
      (stringLiteral s).toList.all isPrintable = true ∧
      decodeString (stringLiteral s) = some s ∧
      decodeChar (charLiteral c) = some c := by
  have hbody : Masked (stringBody s.toList) := masked_stringBody s.toList
  have htext : (stringLiteral s).toList = '"' :: stringBody s.toList ++ ['"'] :=
    String.toList_ofList
  have hquote : isPrintable '"' := by decide
  refine ⟨⟨stringBody s.toList, htext, hbody.hasBareQuote⟩, ?_, decodeString_stringLiteral s,
    decodeChar_charLiteral c⟩
  rw [htext, List.cons_append, List.all_cons, List.all_append, hquote,
    List.all_eq_true.mpr hbody.isPrintable]
  simpa using hquote

end Offside.Text
