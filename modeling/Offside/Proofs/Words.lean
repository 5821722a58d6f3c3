import Mathlib
import Offside.Pretty.Block
import Offside.Pretty.Name

/-!
# Texts of one line

The texts that the printer makes itself are not empty and hold no line break: numbers, literals,
pragmas and the special names. A line break in a literal or in the name of a file is written as an
escape.
-/
namespace Offside

open Offside.Number Offside.Text

/-- A text that is not empty and has no line break. -/
def IsWord (s : String) : Prop := s ≠ "" ∧ '\n' ∉ s.toList

instance (s : String) : Decidable (IsWord s) := inferInstanceAs (Decidable (_ ∧ _))

namespace IsWord

theorem ofList {cs : List Char} (hne : cs ≠ []) (hcs : '\n' ∉ cs) : IsWord (String.ofList cs) := by
  refine ⟨fun h => hne ?_, by simpa using hcs⟩
  rwa [← String.toList_inj, String.toList_ofList] at h

theorem append_left {s t : String} (hs : '\n' ∉ s.toList) (ht : IsWord t) : IsWord (s ++ t) := by
  refine ⟨fun h => ht.1 ?_, ?_⟩
  · rw [String.append_eq_empty_iff] at h
    exact h.2
  · rw [String.toList_append, List.mem_append]
    exact fun h => h.elim hs ht.2

theorem append {s t : String} (hs : IsWord s) (ht : IsWord t) : IsWord (s ++ t) :=
  append_left hs.2 ht

end IsWord

theorem newline_notMem_toDigits (n : Nat) : '\n' ∉ Nat.toDigits 10 n := by
  intro h
  have hdigit := Nat.isDigit_of_mem_toDigits (by decide) (by decide) h
  exact absurd hdigit (by decide)

theorem isWord_decimalText (n : Int) : IsWord (decimalText n) := by
  have hdigits := newline_notMem_toDigits n.natAbs
  unfold decimalText
  split_ifs
  · exact .ofList (by simp) (by simpa using hdigits)
  · exact .ofList Nat.toDigits_ne_nil hdigits

theorem newline_notMem_orZero {cs : List Char} (h : '\n' ∉ cs) : '\n' ∉ orZero cs := by
  unfold orZero
  split_ifs
  · decide
  · exact h

theorem newline_notMem_magnitudeText {digits : List Char} (h : '\n' ∉ digits) (e : Int32) :
    '\n' ∉ magnitudeText digits e := by
  have htake : ∀ n, '\n' ∉ digits.take n := fun n hn => h (List.mem_of_mem_take hn)
  have hdrop : ∀ n, '\n' ∉ digits.drop n := fun n hn => h (List.mem_of_mem_drop hn)
  unfold magnitudeText
  split_ifs
  · have hwhole : ∀ n, '\n' ∉ digits.take n ++ List.replicate (n - digits.length) '0' := by
      simp [htake, List.mem_replicate]
    simp [positional, newline_notMem_orZero (hwhole _), newline_notMem_orZero (hdrop _)]
  · have hexp : '\n' ∉ (decimalText (e - 1).toInt).toList := (isWord_decimalText _).2
    have hfraction := newline_notMem_orZero (hdrop 1)
    simp only [scientific, List.mem_append, List.mem_cons, not_or]
    exact ⟨⟨htake 1, by decide, hfraction⟩, by decide, hexp⟩

theorem magnitudeText_ne_nil (digits : List Char) (e : Int32) : magnitudeText digits e ≠ [] := by
  unfold magnitudeText
  split_ifs
  · simp [positional]
  · simp [scientific]

theorem isWord_realText {f : Format} (x : Binary f) : IsWord (realText x) := by
  have hsign : ∀ negative, '\n' ∉ (showReal.sign negative).toList := by decide
  cases x with
  | nan => exact (by decide : IsWord "NaN")
  | infinite negative => exact .append_left (hsign negative) (by decide)
  | finite negative significand exponent =>
    by_cases hzero : significand = 0
    · subst hzero
      exact .append_left (hsign negative) (by decide)
    · obtain ⟨e, he⟩ := realText_finite negative hzero exponent
      rw [he]
      refine .append_left (hsign negative) (.ofList (magnitudeText_ne_nil _ _) ?_)
      exact newline_notMem_magnitudeText (newline_notMem_toDigits _) _

theorem newline_notMem_controlNames (n : Nat) : '\n' ∉ (controlNames.getD n "").toList := by
  have hall : ∀ name ∈ controlNames, '\n' ∉ name.toList := by decide
  rw [List.getD_eq_getElem?_getD]
  cases h : controlNames[n]? with
  | none => decide
  | some name => exact hall name (List.mem_of_getElem? h)

theorem notMem_ite {α : Type} {x : α} {p : Prop} [Decidable p] {as bs : List α} (has : p → x ∉ as)
    (hbs : x ∉ bs) : x ∉ if p then as else bs := by
  by_cases h : p
  · rw [if_pos h]
    exact has h
  · rwa [if_neg h]

theorem newline_notMem_escape (c : Char) (next : Option Char) : '\n' ∉ escape c next := by
  have hcode : '\n' ∉ '\\' :: Nat.toDigits 10 c.toNat ++
      (if next.any Char.isDigit then ['\\', '&'] else []) := by
    rw [List.cons_append, List.mem_cons, List.mem_append]
    have hdigits := newline_notMem_toDigits c.toNat
    have hend : '\n' ∉ (if next.any Char.isDigit then ['\\', '&'] else []) :=
      notMem_ite (fun _ => by decide) (by decide)
    exact fun h => h.elim (by decide) fun h => h.elim hdigits hend
  have hshift : '\n' ∉ ['\\', 'S', 'O'] ++ (if next = some 'H' then ['\\', '&'] else []) := by
    rw [List.mem_append]
    have hend : '\n' ∉ (if next = some 'H' then ['\\', '&'] else []) :=
      notMem_ite (fun _ => by decide) (by decide)
    exact fun h => h.elim (by decide) hend
  have hname : '\n' ∉ '\\' :: (controlNames.getD c.toNat "").toList := by
    rw [List.mem_cons]
    exact fun h => h.elim (by decide) (newline_notMem_controlNames _)
  have hprint : ' ' ≤ c → '\n' ∉ [c] := by
    intro hc h
    rw [List.mem_singleton] at h
    exact absurd (h ▸ hc) (by decide)
  rw [escape]
  refine notMem_ite (fun _ => by decide)
    (notMem_ite (fun _ => by decide) (notMem_ite (fun _ => hcode)
    (notMem_ite hprint (notMem_ite (fun _ => by decide) (notMem_ite (fun _ => by decide)
    (notMem_ite (fun _ => by decide) (notMem_ite (fun _ => by decide)
    (notMem_ite (fun _ => by decide)
    (notMem_ite (fun _ => by decide) (notMem_ite (fun _ => by decide) (notMem_ite (fun _ =>
    hshift) hname)))))))))))

theorem isWord_charLiteral (c : Char) : IsWord (charLiteral c) := by
  rw [charLiteral]
  split
  · decide
  · refine .ofList (by simp) ?_
    have := newline_notMem_escape c none
    simp only [List.cons_append, List.mem_cons, List.mem_append, not_or]
    exact ⟨by decide, this, by decide⟩

theorem newline_notMem_stringBody (cs : List Char) : '\n' ∉ stringBody cs := by
  induction cs with
  | nil => decide
  | cons c cs ih =>
    rw [stringBody, List.mem_append]
    have hfirst : '\n' ∉ (if c = '"' then ['\\', '"'] else escape c cs.head?) :=
      notMem_ite (fun _ => by decide) (newline_notMem_escape c _)
    exact fun h => h.elim hfirst ih

theorem isWord_stringLiteral (s : String) : IsWord (stringLiteral s) := by
  refine .ofList (by simp) ?_
  have := newline_notMem_stringBody s.toList
  simp only [List.cons_append, List.mem_cons, List.mem_append, not_or]
  exact ⟨by decide, this, by decide, by simp⟩

theorem isWord_linePragma (line : Int) (file : String) :
    IsWord ("\x7b-# LINE " ++ decimalText line ++ " " ++ stringLiteral file ++ " #-\x7d") :=
  .append (.append (.append (.append (by decide) (isWord_decimalText line)) (by decide))
    (isWord_stringLiteral file))
    (by decide)

theorem isWord_special (con : Syntax.SpecialCon) : IsWord con.text := by
  cases con with
  | tuple arity =>
    refine .ofList (by simp) ?_
    simp [List.mem_replicate]
  | _ => decide

end Offside
