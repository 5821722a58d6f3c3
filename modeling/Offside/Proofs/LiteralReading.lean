import Mathlib
import Offside.Text.Literal

/-!
# Reading literals back

A reader of character and string literals that takes the longest escape it can. It reads each
literal back to what it was written for and stops right behind it, whatever follows.
-/
namespace Offside.Text

/-- The escapes of one character. The last one stands for nothing. -/
def shortEscapes : List (Char × Option Char) :=
  [('\\', '\\'), ('"', '"'), ('\'', '\''), ('a', '\x07'), ('b', '\x08'), ('f', '\x0c'),
    ('n', '\n'), ('r', '\r'), ('t', '\t'), ('v', '\x0b'), ('&', none)]

/-- The names of characters with their codes. The longer of two names that begin alike stands
first. -/
def namedCodes : List (String × Nat) := (controlNames ++ ["SP"]).zipIdx ++ [("DEL", 127)]

/-- The name that is found first is the longest one that the text starts with. -/
theorem length_le_of_find_namedCodes {cs : List Char} {n : String × Nat}
    (hfind : (namedCodes.find? fun n => n.1.toList.isPrefixOf cs) = some n) {m : String × Nat}
    (hm : m ∈ namedCodes) (hstarts : m.1.toList <+: cs) :
    m.1.toList.length ≤ n.1.toList.length := by
  have horder : namedCodes.Pairwise fun n m => ¬ n.1.toList <+: m.1.toList := by decide
  obtain ⟨hn, before, after, hsplit, hbefore⟩ := List.find?_eq_some_iff_append.mp hfind
  rw [hsplit] at horder hm
  rcases List.mem_append.mp hm with hm | hm
  · have hnot : ¬ m.1.toList <+: cs := by simpa [← List.isPrefixOf_iff_prefix] using hbefore m hm
    exact absurd hstarts hnot
  rcases List.mem_cons.mp hm with rfl | hm
  · exact Nat.le_refl _
  -- both names start the text, so one starts the other
  have hfirst : n.1.toList <+: cs := by simpa using hn
  rcases List.prefix_or_prefix_of_prefix hfirst hstarts with h | h
  · exact absurd h ((List.pairwise_cons.mp (List.pairwise_append.mp horder).2.1).1 m hm)
  · exact h.length_le

/-- Reads what stands after a backslash: a short escape, a code or a name. -/
def readEscape : List Char → Option (Option Char × List Char)
  | [] => none
  | c :: rest =>
    match shortEscapes.lookup c with
    | some d => some (d, rest)
    | none =>
      if c.isDigit then
        let code := Nat.ofDigitChars 10 ((c :: rest).takeWhile Char.isDigit) 0
        if code.isValidChar then
          some (some (Char.ofNat code), (c :: rest).dropWhile Char.isDigit)
        else none
      else
        (namedCodes.find? fun n => n.1.toList.isPrefixOf (c :: rest)).map fun n =>
          (some (Char.ofNat n.2), (c :: rest).drop n.1.toList.length)

theorem length_readEscape {cs rest : List Char} {d : Option Char}
    (h : readEscape cs = some (d, rest)) : rest.length < cs.length := by
  cases cs with
  | nil => simp [readEscape] at h
  | cons c cs =>
    rw [readEscape] at h
    split at h
    · obtain ⟨-, rfl⟩ := by simpa using h
      simp
    · split_ifs at h with hdigit
      · obtain ⟨-, -, rfl⟩ := by simpa using h
        rw [List.dropWhile_cons_of_pos hdigit, List.length_cons]
        exact Nat.lt_succ_of_le (List.length_dropWhile_le _ _)
      · obtain ⟨name, code, hfind, -, rfl⟩ := by simpa using h
        have hname : ∀ n ∈ namedCodes, n.1.toList ≠ [] := by decide
        have hlength : 0 < name.toList.length :=
          List.length_pos_of_ne_nil (hname _ (List.mem_of_find?_eq_some hfind))
        simp only [List.length_drop, List.length_cons]
        omega

/-- Reads a string up to its closing quote. -/
def readString : List Char → Option (List Char × List Char)
  | [] => none
  | c :: rest =>
    if c = '"' then some ([], rest)
    else if c = '\\' then
      match _h : readEscape rest with
      | none => none
      | some (d, after) => (readString after).map fun r => (d.toList ++ r.1, r.2)
    else (readString rest).map fun r => (c :: r.1, r.2)
termination_by cs => cs.length
decreasing_by
  · have := length_readEscape _h
    simp only [List.length_cons]
    omega
  · simp

/-- Reads a character up to its closing quote. -/
def readChar (cs : List Char) : Option (Char × List Char) :=
  match cs with
  | [] => none
  | c :: rest =>
    match if c = '\\' then readEscape rest else if c = '\'' then none else some (some c, rest) with
    | some (some d, '\'' :: after) => some (d, after)
    | _ => none

theorem readEscape_control {n : Nat} (hn : n < 32) {cs : List Char}
    (hcs : n = 14 → cs.head? ≠ some 'H') :
    readEscape ((controlNames.getD n "").toList ++ cs) = some (some (Char.ofNat n), cs) := by
  rcases Nat.lt_trichotomy n 14 with hlt | rfl | hgt
  · interval_cases n <;> rfl
  · -- the one name that begins another
    cases cs with
    | nil => rfl
    | cons c cs =>
      have hc : c ≠ 'H' := by simpa using hcs rfl
      have hshort : shortEscapes.lookup 'S' = none := by decide
      simp [readEscape, hshort, namedCodes, controlNames, hc.symm]
  · interval_cases n <;> rfl

theorem readEscape_code (c : Char) {cs : List Char} (hcs : cs.head?.any Char.isDigit = false) :
    readEscape (Nat.toDigits 10 c.toNat ++ cs) = some (some c, cs) := by
  have hdigits : ∀ d ∈ Nat.toDigits 10 c.toNat, d.isDigit = true := fun d hd =>
    Nat.isDigit_of_mem_toDigits (by decide) (by decide) hd
  have hstop : cs.takeWhile Char.isDigit = [] ∧ cs.dropWhile Char.isDigit = cs := by
    cases cs with
    | nil => exact ⟨rfl, rfl⟩
    | cons e es =>
      have he : e.isDigit = false := by simpa using hcs
      simp [he]
  have htake : (Nat.toDigits 10 c.toNat ++ cs).takeWhile Char.isDigit =
      Nat.toDigits 10 c.toNat := by
    rw [List.takeWhile_append_of_pos hdigits, hstop.1, List.append_nil]
  have hdrop : (Nat.toDigits 10 c.toNat ++ cs).dropWhile Char.isDigit = cs := by
    rw [List.dropWhile_append_of_pos hdigits, hstop.2]
  obtain ⟨d, ds, hcons⟩ := List.exists_cons_of_ne_nil (Nat.toDigits_ne_nil (n := c.toNat) (b := 10))
  have hd : d.isDigit = true := hdigits d (by rw [hcons]; exact List.mem_cons_self)
  have hlookup : shortEscapes.lookup d = none := by
    have hkeys : ∀ p ∈ shortEscapes, p.1.isDigit = false := by decide
    rw [List.lookup_eq_none_iff]
    intro p hp
    simp only [bne_iff_ne, ne_eq]
    rintro rfl
    rw [hkeys p hp] at hd
    contradiction
  rw [hcons, List.cons_append] at htake hdrop ⊢
  rw [readEscape, hlookup]
  dsimp only
  rw [if_pos hd, htake, hdrop, ← hcons, Nat.ofDigitChars_toDigits (by decide) (by decide),
    Char.ofNat_toNat]
  exact if_pos c.valid

theorem readString_escape {cs rest : List Char} {d : Option Char}
    (h : readEscape cs = some (d, rest)) :
    readString ('\\' :: cs) = (readString rest).map fun r => (d.toList ++ r.1, r.2) := by
  rw [readString, if_neg (by decide), if_pos rfl]
  split
  · next hnone => rw [hnone] at h; contradiction
  · next hsome =>
    obtain ⟨rfl, rfl⟩ := by simpa using hsome.symm.trans h
    rfl

/-- The ways in which a character is written before `next`. -/
inductive Spelled (next : Option Char) : Char → List Char → Prop where
  | plain {c : Char} : c ≠ '\\' → ' ' ≤ c → c ≤ '~' → Spelled next c [c]
  | short {c d : Char} : shortEscapes.lookup d = some (some c) → Spelled next c ['\\', d]
  | delete : Spelled next '\x7f' ['\\', 'D', 'E', 'L']
  | code {c : Char} :
    Spelled next c ('\\' :: Nat.toDigits 10 c.toNat ++
      (if next.any Char.isDigit then ['\\', '&'] else []))
  | control {c : Char} :
      c.toNat < 32 → c.toNat ≠ 14 → Spelled next c ('\\' :: (controlNames.getD c.toNat "").toList)
  | shiftOut :
      Spelled next '\x0e' (['\\', 'S', 'O'] ++ (if next = some 'H' then ['\\', '&'] else []))

theorem Spelled.ite {c : Char} {next : Option Char} {p : Prop} [Decidable p] {t u : List Char}
    (ht : p → Spelled next c t) (hu : ¬ p → Spelled next c u) :
    Spelled next c (if p then t else u) := by
  split_ifs with h
  · exact ht h
  · exact hu h

theorem spelled_escape (c : Char) (next : Option Char) : Spelled next c (escape c next) := by
  unfold escape
  refine .ite (fun h => ?_) fun hslash => ?_
  · subst h
    exact .short rfl
  refine .ite (fun h => h ▸ .delete) fun hdelete => ?_
  refine .ite (fun _ => .code) fun hhigh => ?_
  refine .ite (fun hlow => ?_) fun hlow => ?_
  · have hbelow : c < '\x7f' := lt_of_le_of_ne (not_lt.mp hhigh) hdelete
    exact .plain hslash hlow (Nat.le_of_lt_succ hbelow)
  have hcontrol : c.toNat < 32 := not_le.mp hlow
  refine .ite (fun h => h ▸ .short rfl) fun _ => ?_
  refine .ite (fun h => h ▸ .short rfl) fun _ => ?_
  refine .ite (fun h => h ▸ .short rfl) fun _ => ?_
  refine .ite (fun h => h ▸ .short rfl) fun _ => ?_
  refine .ite (fun h => h ▸ .short rfl) fun _ => ?_
  refine .ite (fun h => h ▸ .short rfl) fun _ => ?_
  refine .ite (fun h => h ▸ .short rfl) fun _ => ?_
  refine .ite (fun h => h ▸ .shiftOut) fun hname => ?_
  refine .control hcontrol fun h => hname ?_
  rw [← Char.ofNat_toNat c, h]

/-- What follows an escape does not belong to it, if the next character is `next`. -/
structure Follows (next : Option Char) (cs : List Char) : Prop where
  digit : cs.head?.any Char.isDigit = true → next.any Char.isDigit = true
  name : cs.head? = some 'H' → next = some 'H'

/-- The text stands for a character before `next`: it is the character, or an escape that is read
back, with a separator or without. -/
def Escaped (c : Char) (next : Option Char) (text : List Char) : Prop :=
  text = [c] ∧ c ≠ '\\' ∨
    ∃ e separator, text = '\\' :: e ++ separator ∧
    (separator = [] ∨ separator = ['\\', '&'] ∧ next ≠ none) ∧
      ∀ cs, Follows next cs → readEscape (e ++ (separator ++ cs)) = some (some c, separator ++ cs)

namespace Escaped

variable {c : Char} {next : Option Char}

theorem short {d : Char} (h : shortEscapes.lookup d = some (some c)) : Escaped c next ['\\', d] :=
  .inr ⟨[d], [], rfl, .inl rfl, fun cs _ => by simp [readEscape, h]⟩

theorem code : Escaped c next
    ('\\' :: Nat.toDigits 10 c.toNat ++ (if next.any Char.isDigit then ['\\', '&'] else [])) := by
  refine .inr ⟨_, _, rfl, ?_, fun cs hcs => readEscape_code c ?_⟩
  · cases next with
    | none => exact .inl rfl
    | some d => by_cases h : d.isDigit <;> simp [h]
  · by_cases h : next.any Char.isDigit = true
    · rw [if_pos h]
      rfl
    · rw [if_neg h, List.nil_append, ← Bool.not_eq_true]
      exact fun hd => h (hcs.digit hd)

theorem control (hc : c.toNat < 32) (hname : c.toNat ≠ 14) :
    Escaped c next ('\\' :: (controlNames.getD c.toNat "").toList) := by
  refine .inr ⟨(controlNames.getD c.toNat "").toList, [], by rw [List.append_nil], .inl rfl,
    fun cs _ => ?_⟩
  rw [List.nil_append, readEscape_control hc fun h => absurd h hname, Char.ofNat_toNat]

/-- The one name that begins another. -/
theorem shiftOut :
    Escaped '\x0e' next (['\\', 'S', 'O'] ++ (if next = some 'H' then ['\\', '&'] else [])) := by
  refine .inr ⟨['S', 'O'], _, rfl, ?_, fun cs hcs => ?_⟩
  · by_cases h : next = some 'H' <;> simp [h]
  · refine readEscape_control (n := 14) (by decide) fun _ => ?_
    by_cases h : next = some 'H'
    · simp [h]
    · rw [if_neg h, List.nil_append]
      exact fun hh => h (hcs.name hh)

end Escaped

theorem Spelled.escaped {c : Char} {next : Option Char} {text : List Char}
    (h : Spelled next c text) : Escaped c next text := by
  cases h with
  | plain hslash _ _ => exact .inl ⟨rfl, hslash⟩
  | short h => exact .short h
  | delete => exact .inr ⟨['D', 'E', 'L'], [], rfl, .inl rfl, fun _ _ => rfl⟩
  | code => exact .code
  | control hc hname => exact .control hc hname
  | shiftOut => exact .shiftOut

theorem escaped_escape (c : Char) (next : Option Char) : Escaped c next (escape c next) :=
  (spelled_escape c next).escaped

/-- One character of a string is read back, whatever follows it. -/
theorem readString_escaped {c : Char} {next : Option Char} {text cs : List Char}
    (htext : Escaped c next text) (hc : c ≠ '"') (hcs : Follows next cs) :
    readString (text ++ cs) = (readString cs).map fun r => (c :: r.1, r.2) := by
  obtain ⟨rfl, hslash⟩ | ⟨e, separator, rfl, hseparator, hread⟩ := htext
  · rw [List.singleton_append, readString, if_neg hc, if_neg hslash]
  · rw [List.cons_append, List.cons_append, List.append_assoc, readString_escape (hread cs hcs)]
    obtain rfl | ⟨rfl, -⟩ := hseparator
    · rfl
    · rw [List.cons_append, List.singleton_append, readString_escape (d := none) rfl,
        Option.map_map]
      rfl

theorem follows_stringBody (s rest : List Char) :
    Follows s.head? (stringBody s ++ '"' :: rest) := by
  cases s with
  | nil => exact ⟨by simp [stringBody], by simp [stringBody]⟩
  | cons c s =>
    rw [stringBody]
    split_ifs
    · exact ⟨by simp, by simp⟩
    · obtain ⟨htext, -⟩ | ⟨e, separator, htext, -⟩ := escaped_escape c s.head?
      · rw [htext]
        exact ⟨by simp, by simp⟩
      · rw [htext]
        exact ⟨by simp, by simp⟩

/-- A string stops at its closing quote. -/
theorem readString_stringBody (s rest : List Char) :
    readString (stringBody s ++ '"' :: rest) = some (s, rest) := by
  induction s with
  | nil => rw [stringBody, List.nil_append, readString, if_pos rfl]
  | cons c s ih =>
    rw [stringBody, List.append_assoc]
    by_cases hc : c = '"'
    · rw [if_pos hc, List.cons_append, List.singleton_append,
        readString_escape (d := some '"') rfl, ih, hc]
      rfl
    · rw [if_neg hc, readString_escaped (escaped_escape c s.head?) hc (follows_stringBody s rest),
        ih]
      rfl

/-- A character stops at its closing quote. -/
theorem readChar_charLiteral (c : Char) :
    ∃ body, (charLiteral c).toList = '\'' :: body ∧ ∀ rest,
      readChar (body ++ rest) = some (c, rest) := by
  unfold charLiteral
  split_ifs with hc
  · exact ⟨['\\', '\'', '\''], by decide, fun rest => by subst hc; rfl⟩
  · refine ⟨escape c none ++ ['\''], by simp, fun rest => ?_⟩
    obtain ⟨htext, hslash⟩ | ⟨e, separator, htext, hseparator, hread⟩ := escaped_escape c none
    · simp [htext, readChar, hslash, hc]
    · obtain rfl : separator = [] := by simpa using hseparator
      have hfollows : Follows none ('\'' :: rest) := ⟨by simp, by simp⟩
      have he := hread ('\'' :: rest) hfollows
      simp only [List.nil_append] at he
      simp [htext, readChar, he]

end Offside.Text
