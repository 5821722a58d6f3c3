import Offside.Proofs.Spelling
import Offside.Proofs.TokenTree

/-!
# The words of a document

A document that is one line of words, with brackets inside them, is read word by word. The words
follow from the text of the document in any style, so two documents with the same text have the same
words.
-/
namespace Offside.Reading

open TokenTree

/-- Words with spaces between them. -/
def joinWords (ws : List (List TokenTree)) : List TokenTree := List.intercalate [.chr ' '] ws

/-- Parts with commas between them. -/
def joinParts (ps : List (List TokenTree)) : List TokenTree :=
  List.intercalate [.chr ',', .chr ' '] ps

/-- A row without gaps. -/
structure IsWord (a : Alphabet) (w : List TokenTree) : Prop where
  valid : Valid a false w
  ne_nil : w ≠ []
  solid : ∀ t ∈ w, t ≠ .chr ' ' ∧ t ≠ .chr ','

theorem joinWords_cons {w : List TokenTree} {ws : List (List TokenTree)} (hws : ws ≠ []) :
    joinWords (w :: ws) = w ++ .chr ' ' :: joinWords ws := by
  obtain ⟨v, vs, rfl⟩ := List.exists_cons_of_ne_nil hws
  rw [joinWords, List.intercalate_cons_cons]
  simp [joinWords]

theorem joinParts_cons {p : List TokenTree} {ps : List (List TokenTree)} (hps : ps ≠ []) :
    joinParts (p :: ps) = p ++ .chr ',' :: .chr ' ' :: joinParts ps := by
  obtain ⟨v, vs, rfl⟩ := List.exists_cons_of_ne_nil hps
  rw [joinParts, List.intercalate_cons_cons]
  simp [joinParts]

theorem joinWords_append {ws vs : List (List TokenTree)} (hws : ws ≠ []) (hvs : vs ≠ []) :
    joinWords (ws ++ vs) = joinWords ws ++ .chr ' ' :: joinWords vs := by
  induction ws with
  | nil => exact absurd rfl hws
  | cons w ws ih =>
    by_cases hne : ws = []
    · rw [hne, List.singleton_append, joinWords_cons hvs]
      simp [joinWords]
    · rw [List.cons_append, joinWords_cons (by simp [hvs]), joinWords_cons hne, ih hne]
      simp

/-- The words of several rows of words side by side. -/
theorem joinWords_flatten {wss : List (List (List TokenTree))} (hne : ∀ ws ∈ wss, ws ≠ []) :
    joinWords wss.flatten = joinWords (wss.map joinWords) := by
  induction wss with
  | nil => rfl
  | cons ws wss ih =>
    obtain ⟨hws, hwss⟩ := List.forall_mem_cons.mp hne
    cases wss with
    | nil => simp [joinWords]
    | cons vs vss =>
      have hvs : (vs :: vss).flatten ≠ [] := by simp [hwss vs]
      rw [List.flatten_cons, joinWords_append hws hvs, ih hwss, List.map_cons (l := vs :: vss),
        joinWords_cons (by simp)]

section

variable {a : Alphabet}

theorem valid_joinWords {ws : List (List TokenTree)} (hws : ∀ w ∈ ws, IsWord a w) :
    Valid a false (joinWords ws) := by
  induction ws with
  | nil => exact .nil
  | cons w ws ih =>
    obtain ⟨hw, hws⟩ := List.forall_mem_cons.mp hws
    by_cases hne : ws = []
    · simpa [hne, joinWords] using hw.valid
    · rw [joinWords_cons hne]
      exact hw.valid.append fun _ => .mark (isMark_of_ascii (by decide)) (ih hws)

theorem valid_joinParts {ps : List (List TokenTree)} (hps : ∀ p ∈ ps, Valid a false p) :
    Valid a false (joinParts ps) := by
  induction ps with
  | nil => exact .nil
  | cons p ps ih =>
    obtain ⟨hp, hps⟩ := List.forall_mem_cons.mp hps
    by_cases hne : ps = []
    · simpa [hne, joinParts] using hp
    · rw [joinParts_cons hne]
      exact hp.append fun _ => .mark (isMark_of_ascii (by decide))
        (.mark (isMark_of_ascii (by decide)) (ih hps))

end

/-! ### Reading -/

/-- A character, or something that has been read already. -/
inductive Item (α : Type) where
  | chr (c : Char)
  | whole (x : α)

namespace Item

variable {α : Type}

/-- Whether the item is a character that passes a test. -/
def test (p : Char → Bool) : Item α → Bool
  | .chr c => p c
  | .whole _ => false

def is (c : Char) : Item α → Bool := test fun d => d = c

@[simp] theorem test_chr (p : Char → Bool) (c : Char) : (Item.chr c : Item α).test p = p c := rfl

@[simp] theorem test_whole (p : Char → Bool) (x : α) : (Item.whole x).test p = false := rfl

@[simp] theorem is_chr (c d : Char) : (Item.chr d : Item α).is c = decide (d = c) := rfl

@[simp] theorem is_whole (c : Char) (x : α) : (Item.whole x).is c = false := rfl

end Item

/-- What literals in quotes mean, and what a bracket means once everything in it has been read. -/
structure Reader (α : Type) where
  quoted : Quoted → α
  close : Bracket → List (Item α) → α

namespace Reader

variable {α : Type}

mutual

def item (r : Reader α) : TokenTree → Item α
  | .chr c => .chr c
  | .quoted q => .whole (r.quoted q)
  | .group b inner => .whole (r.close b (r.items inner))

def items (r : Reader α) : List TokenTree → List (Item α)
  | [] => []
  | t :: ts => r.item t :: r.items ts

end

variable (r : Reader α)

@[simp] theorem item_chr (c : Char) : r.item (.chr c) = .chr c := by rw [item]

@[simp] theorem item_quoted (q : Quoted) : r.item (.quoted q) = .whole (r.quoted q) := by rw [item]

@[simp] theorem item_group (b : Bracket) (inner : List TokenTree) :
    r.item (.group b inner) = .whole (r.close b (r.items inner)) := by rw [item]

theorem items_eq (ts : List TokenTree) : r.items ts = ts.map r.item := by
  induction ts with
  | nil => rw [items]; rfl
  | cons t ts ih => rw [items, ih, List.map_cons]

@[simp] theorem items_nil : r.items [] = [] := by rw [items]

@[simp] theorem items_cons (t : TokenTree) (ts : List TokenTree) :
    r.items (t :: ts) = r.item t :: r.items ts := by
  rw [items]

@[simp] theorem items_append (ts us : List TokenTree) :
    r.items (ts ++ us) = r.items ts ++ r.items us := by
  simp [items_eq]

@[simp] theorem items_chars (cs : List Char) : r.items (cs.map .chr) = cs.map .chr := by
  simp [items_eq]

end Reader

section

variable {α : Type}

/-- The characters of a row that holds nothing else. -/
def characters? : List (Item α) → Option (List Char)
  | [] => some []
  | .chr c :: is => (characters? is).map (c :: ·)
  | .whole _ :: _ => none

@[simp] theorem characters?_chars (cs : List Char) :
    characters? (cs.map (Item.chr (α := α))) = some cs := by
  induction cs with
  | nil => rfl
  | cons c cs ih => rw [List.map_cons, characters?, ih, Option.map_some]

@[simp] theorem characters?_whole (x : α) (is : List (Item α)) :
    characters? (.whole x :: is) = none := rfl

/-- The words between the spaces. -/
def words (is : List (Item α)) : List (List (Item α)) :=
  (is.splitOnP (Item.is ' ')).filter fun w => !w.isEmpty

/-- The parts between the commas, each as its words. -/
def phrases (is : List (Item α)) : List (List (List (Item α))) :=
  (is.splitOnP (Item.is ',')).map words

theorem words_cons {w : List (Item α)} (hne : w ≠ []) (hw : ∀ i ∈ w, i.is ' ' = false)
    (is : List (Item α)) : words (w ++ .chr ' ' :: is) = w :: words is := by
  rw [words, List.splitOnP_append_cons_of_forall_mem hw _ rfl,
    List.filter_cons_of_pos (by simpa using hne), words]

theorem words_singleton {w : List (Item α)} (hne : w ≠ []) (hw : ∀ i ∈ w, i.is ' ' = false) :
    words w = [w] := by
  rw [words, List.splitOnP_eq_singleton hw, List.filter_cons_of_pos (by simpa using hne),
    List.filter_nil]

theorem words_blank (is : List (Item α)) : words (.chr ' ' :: is) = words is := by
  rw [words, ← List.nil_append (Item.chr ' ' :: is),
    List.splitOnP_append_cons_of_forall_mem (by simp) _ rfl,
    List.filter_cons_of_neg (by simp), words]

theorem phrases_cons {p : List (Item α)} (hp : ∀ i ∈ p, i.is ',' = false) (is : List (Item α)) :
    phrases (p ++ .chr ',' :: is) = words p :: phrases is := by
  rw [phrases, List.splitOnP_append_cons_of_forall_mem hp _ rfl, List.map_cons, phrases]

theorem phrases_singleton {p : List (Item α)} (hp : ∀ i ∈ p, i.is ',' = false) :
    phrases p = [words p] := by
  rw [phrases, List.splitOnP_eq_singleton hp, List.map_singleton]

theorem phrases_blank (is : List (Item α)) : phrases (.chr ' ' :: is) = phrases is := by
  rw [phrases, phrases, List.splitOnP_cons_eq_if_modifyHead, if_neg (by simp)]
  cases is.splitOnP (Item.is ',') with
  | nil => rfl
  | cons p ps => rw [List.modifyHead_cons, List.map_cons, List.map_cons, words_blank]

variable {a : Alphabet} (r : Reader α)

theorem Reader.is_item {t : TokenTree} {c : Char} (ht : t ≠ .chr c) : (r.item t).is c = false := by
  cases t with
  | chr d =>
    rw [r.item_chr, Item.is_chr, decide_eq_false_iff_not]
    rintro rfl
    exact ht rfl
  | quoted q => rw [r.item_quoted]; rfl
  | group b inner => rw [r.item_group]; rfl

theorem IsWord.items_solid {w : List TokenTree} (hw : IsWord a w) :
    r.items w ≠ [] ∧ ∀ i ∈ r.items w, i.is ' ' = false ∧ i.is ',' = false := by
  rw [r.items_eq]
  refine ⟨by simpa using hw.ne_nil, List.forall_mem_map.mpr fun t ht => ?_⟩
  exact ⟨r.is_item (hw.solid t ht).1, r.is_item (hw.solid t ht).2⟩

theorem words_items_joinWords {ws : List (List TokenTree)} (hws : ∀ w ∈ ws, IsWord a w) :
    words (r.items (joinWords ws)) = ws.map r.items := by
  induction ws with
  | nil => rfl
  | cons w ws ih =>
    obtain ⟨hw, hws⟩ := List.forall_mem_cons.mp hws
    obtain ⟨hne, hsolid⟩ := hw.items_solid r
    by_cases hnil : ws = []
    · rw [hnil, joinWords, List.intercalate_singleton,
        words_singleton hne fun i hi => (hsolid i hi).1]
      rfl
    · rw [joinWords_cons hnil, r.items_append, r.items_cons, r.item_chr,
        words_cons hne fun i hi => (hsolid i hi).1, ih hws, List.map_cons]

theorem is_comma_joinWords {ws : List (List TokenTree)} (hws : ∀ w ∈ ws, IsWord a w) :
    ∀ i ∈ r.items (joinWords ws), i.is ',' = false := by
  rw [r.items_eq, List.forall_mem_map]
  intro t ht
  apply r.is_item
  rcases mem_of_mem_intercalate ht with ht | ⟨w, hw, htw⟩
  · rw [List.mem_singleton.mp ht]
    simp
  · exact ((hws w hw).solid t htw).2

theorem phrases_items_joinParts {wss : List (List (List TokenTree))} (hne : wss ≠ [])
    (hwss : ∀ ws ∈ wss, ∀ w ∈ ws, IsWord a w) :
    phrases (r.items (joinParts (wss.map joinWords))) = wss.map fun ws => ws.map r.items := by
  induction wss with
  | nil => exact absurd rfl hne
  | cons ws wss ih =>
    obtain ⟨hws, hwss⟩ := List.forall_mem_cons.mp hwss
    have hsolid := is_comma_joinWords r hws
    by_cases hnil : wss = []
    · rw [hnil, List.map_singleton, joinParts, List.intercalate_singleton, phrases_singleton hsolid,
        words_items_joinWords r hws]
      rfl
    · rw [List.map_cons, joinParts_cons (by simpa using hnil), r.items_append,
        r.items_cons, r.item_chr, phrases_cons hsolid, r.items_cons, r.item_chr, phrases_blank,
        ih hnil hwss, words_items_joinWords r hws, List.map_cons]

theorem joinWords_ne_nil {ws : List (List TokenTree)} (hne : ws ≠ []) (hws : ∀ w ∈ ws, IsWord a w) :
    joinWords ws ≠ [] := by
  obtain ⟨w, ws, rfl⟩ := List.exists_cons_of_ne_nil hne
  have hw := (hws w (by simp)).ne_nil
  by_cases hnil : ws = []
  · simpa [hnil, joinWords] using hw
  · rw [joinWords_cons hnil]
    simp

/-- Parts are not made of commas alone. -/
theorem all_is_comma_joinParts {wss : List (List (List TokenTree))} (hne : wss ≠ [])
    (hwss : ∀ ws ∈ wss, ws ≠ [] ∧ ∀ w ∈ ws, IsWord a w) :
    (r.items (joinParts (wss.map joinWords))).all (Item.is ',') = false := by
  obtain ⟨ws, wss, rfl⟩ := List.exists_cons_of_ne_nil hne
  obtain ⟨hws, hword⟩ := hwss ws (by simp)
  obtain ⟨t, ts, hcons⟩ := List.exists_cons_of_ne_nil (joinWords_ne_nil hws hword)
  have ht := is_comma_joinWords r hword (r.item t) (by rw [hcons, r.items_cons]; simp)
  have hparts : ∃ us, joinParts ((ws :: wss).map joinWords) = t :: us := by
    by_cases hnil : wss = []
    · exact ⟨ts, by simp [hnil, joinParts, hcons]⟩
    · exact ⟨_,
        by rw [List.map_cons, joinParts_cons (by simpa using hnil), hcons, List.cons_append]⟩
  obtain ⟨us, hus⟩ := hparts
  rw [hus, r.items_cons, List.all_cons, ht, Bool.false_and]

theorem isEmpty_items_joinParts {wss : List (List (List TokenTree))} (hne : wss ≠ [])
    (hwss : ∀ ws ∈ wss, ws ≠ [] ∧ ∀ w ∈ ws, IsWord a w) :
    (r.items (joinParts (wss.map joinWords))).isEmpty = false := by
  have hall := all_is_comma_joinParts r hne hwss
  rw [List.isEmpty_eq_false_iff]
  intro h
  rw [h] at hall
  contradiction

theorem joinWords_eq_joinParts (ws : List (List TokenTree)) :
    joinWords ws = joinParts ([ws].map joinWords) := by
  simp [joinParts]

end

/-! ### Documents -/

/-- The document is one line of these words. -/
structure Worded (a : Alphabet) (d : Doc) (ws : List (List TokenTree)) : Prop where
  spells : d.Spells (texts (joinWords ws))
  ne_nil : ws ≠ []
  isWord : ∀ w ∈ ws, IsWord a w

section

variable {a : Alphabet}

/-- Documents with the same text have the same words. -/
theorem Worded.unique {d d' : Doc} {ws ws' : List (List TokenTree)} (hd : Worded a d ws)
    (hd' : Worded a d' ws') {style style' : Style}
    (h : Chunk.squeezed (d.chunks style) = Chunk.squeezed (d'.chunks style')) {α : Type}
    (r : Reader α) : ws.map r.items = ws'.map r.items := by
  rw [hd.spells.squeezed_chunks, hd'.spells.squeezed_chunks] at h
  have hsame :=
    (valid_joinWords hd.isWord).unique (valid_joinWords hd'.isWord) ends_nil ends_nil
      (by simpa using h)
  rw [← words_items_joinWords r hd.isWord, ← words_items_joinWords r hd'.isWord, hsame.1]

namespace IsWord

theorem group (b : Bracket) {inner : List TokenTree} (hinner : Valid a false inner) :
    IsWord a [.group b inner] :=
  ⟨.group hinner .nil, by simp, by simp⟩

theorem mark {c : Char} (hc : IsMark a c) (hsolid : c ≠ ' ' ∧ c ≠ ',') {w : List TokenTree}
    (hw : IsWord a w) : IsWord a (.chr c :: w) :=
  ⟨.mark hc hw.valid, by simp, List.forall_mem_cons.mpr ⟨by simpa using hsolid, hw.solid⟩⟩

theorem append {w v : List TokenTree} (hw : IsWord a w) (hv : ∀ after, Valid a after v)
    (hsolid : ∀ t ∈ v, t ≠ .chr ' ' ∧ t ≠ .chr ',') : IsWord a (w ++ v) :=
  ⟨hw.valid.append hv, by simp [hw.ne_nil], List.forall_mem_append.mpr ⟨hw.solid, hsolid⟩⟩

end IsWord

namespace Worded

variable {d e : Doc} {ws vs : List (List TokenTree)} {w v : List TokenTree}

theorem word (hd : d.Spells (texts w)) (hw : IsWord a w) : Worded a d [w] :=
  ⟨by simpa [joinWords] using hd, by simp, by simpa using hw⟩

theorem append (hd : Worded a d [w]) (he : Worded a e (v :: vs)) (hword : IsWord a (w ++ v)) :
    Worded a (d ++ e) ((w ++ v) :: vs) := by
  refine ⟨?_, by simp, List.forall_mem_cons.mpr ⟨hword, (List.forall_mem_cons.mp he.isWord).2⟩⟩
  have htexts : texts (joinWords ((w ++ v) :: vs)) =
      texts (joinWords [w]) ++ texts (joinWords (v :: vs)) := by
    by_cases hne : vs = []
    · simp [hne, joinWords]
    · rw [joinWords_cons hne, joinWords_cons hne]
      simp [joinWords]
  rw [htexts]
  exact hd.spells.append he.spells

theorem char {c : Char} (hc : IsMark a c) (hsolid : c ≠ ' ' ∧ c ≠ ',') :
    Worded a (Doc.char c) [[.chr c]] := by
  have hspells : (Doc.char c).Spells (String.singleton c).toList := .ofText (by simp)
  exact .word (by simpa using hspells) ⟨.mark hc .nil, by simp, by simpa using hsolid⟩

/-- A sign directly before the first word. -/
theorem mark {c : Char} (hc : IsMark a c) (hsolid : c ≠ ' ' ∧ c ≠ ',') (hd : Worded a d (w :: ws)) :
    Worded a (Doc.char c ++ d) ((.chr c :: w) :: ws) :=
  (Worded.char hc hsolid).append hd (.mark hc hsolid (hd.isWord w (by simp)))

theorem parens (hd : Worded a d ws) : Worded a d.parens [[.group .round (joinWords ws)]] :=
  .word (by simpa using! hd.spells.parens) (.group _ (valid_joinWords hd.isWord))

theorem brackets (hd : Worded a d ws) : Worded a d.brackets [[.group .square (joinWords ws)]] :=
  .word (by simpa using! hd.spells.brackets) (.group _ (valid_joinWords hd.isWord))

end Worded

/-- Documents that stand for the members of a list, each with its words. -/
theorem exists_words {τ : Type} {P : τ → List (List TokenTree) → Prop} {xs : List τ} {ds : List Doc}
    (h : List.Forall₂ (fun x d => ∃ ws, Worded a d ws ∧ P x ws) xs ds) :
    ∃ wss, List.Forall₂ (Worded a) ds wss ∧ List.Forall₂ P xs wss := by
  induction h with
  | nil => exact ⟨[], .nil, .nil⟩
  | cons hd _ ih =>
    obtain ⟨ws, hws, hp⟩ := hd
    obtain ⟨wss, hwss, hps⟩ := ih
    exact ⟨ws :: wss, .cons hws hwss, .cons hp hps⟩

theorem map_eq_of_forall₂ {σ τ υ : Type} {f : σ → υ} {g : τ → υ} {xs : List σ} {ys : List τ}
    (h : List.Forall₂ (fun x y => g y = f x) xs ys) : ys.map g = xs.map f := by
  induction h with
  | nil => rfl
  | cons hxy _ ih => rw [List.map_cons, List.map_cons, hxy, ih]

theorem texts_joinParts (wss : List (List (List TokenTree))) :
    texts (joinParts (wss.map joinWords)) =
    List.intercalate [',', ' '] (wss.map fun ws => texts (joinWords ws)) := by
  rw [joinParts, texts_intercalate, List.map_map]
  rfl

theorem spells_of_worded {ds : List Doc} {wss : List (List (List TokenTree))}
    (hds : List.Forall₂ (Worded a) ds wss) :
    List.Forall₂ Doc.Spells ds (wss.map fun ws => texts (joinWords ws)) := by
  rw [List.forall₂_map_right_iff]
  exact hds.imp fun d ws hd => hd.spells

section

variable {ds : List Doc} {wss : List (List (List TokenTree))}
  (hds : List.Forall₂ (Worded a) ds wss) (m : Mode)
include hds

theorem forall_of_worded : ∀ ws ∈ wss, ws ≠ [] ∧ ∀ w ∈ ws, IsWord a w := by
  induction hds with
  | nil => simp
  | cons hd _ ih => exact List.forall_mem_cons.mpr ⟨⟨hd.ne_nil, hd.isWord⟩, ih⟩

theorem worded_fillOnside (hne : wss ≠ []) : Worded a (m.fillOnside ds) wss.flatten := by
  have hwss := forall_of_worded hds
  refine ⟨?_, ?_, ?_⟩
  · have hspells := spells_fillOnside (spells_of_worded hds) m (by simpa using hne)
    have htexts : texts (joinWords wss.flatten) = List.intercalate [' ']
        (wss.map fun ws => texts (joinWords ws)) := by
      rw [joinWords_flatten fun ws hws => (hwss ws hws).1, joinWords, texts_intercalate,
        List.map_map]
      rfl
    rw [htexts]
    exact hspells
  · obtain ⟨ws, wss, rfl⟩ := List.exists_cons_of_ne_nil hne
    simp [(hwss ws (by simp)).1]
  · intro w hw
    obtain ⟨ws, hws, hw⟩ := List.mem_flatten.mp hw
    exact (hwss ws hws).2 w hw

theorem valid_joinParts_worded : Valid a false (joinParts (wss.map joinWords)) := by
  apply valid_joinParts
  rw [List.forall_mem_map]
  exact fun ws hws => valid_joinWords (forall_of_worded hds ws hws).2

theorem worded_parenList :
    Worded a (m.parenList ds) [[.group .round (joinParts (wss.map joinWords))]] := by
  refine .word ?_ (.group _ (valid_joinParts_worded hds))
  simpa [texts_joinParts wss] using! spells_parenList (spells_of_worded hds) m

theorem worded_bracketList :
    Worded a (m.bracketList (Doc.punctuate Doc.comma ds))
      [[.group .square (joinParts (wss.map joinWords))]] := by
  refine .word ?_ (.group _ (valid_joinParts_worded hds))
  simpa [texts_joinParts wss] using! spells_bracketList (spells_of_worded hds) m

theorem worded_braceList :
    Worded a (m.braceList ds) [[.group .curly (joinParts (wss.map joinWords))]] := by
  refine .word ?_ (.group _ (valid_joinParts_worded hds))
  simpa [texts_joinParts wss] using! spells_braceList (spells_of_worded hds) m

end

end

end Offside.Reading
