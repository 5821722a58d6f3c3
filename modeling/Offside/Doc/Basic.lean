/-!
# Documents

A document is text with layout left open. Two documents stand beside each other, one above the
other, or as members of a group, which is laid out on one line where it fits and otherwise one
member per line, or as many members per line as fit. `Doc.empty` is the identity of every
composition and never occurs inside a document that the combinators build; `text ""` is different,
it takes a line of its own.
-/
namespace Offside

inductive Doc where
  | empty
  | text (s : String)
  /-- The body moved right by `k` columns, or left for a negative `k`. -/
  | nested (k : Int) (body : Doc)
  /-- The right document starts where the last line of the left one ends. -/
  | joined (left : Doc) (spaced : Bool) (right : Doc)
  /-- The lower document starts a line, or goes on the last line of the upper one if `overlap`
  allows it and that line ends before the column at which the lower document starts. -/
  | stacked (upper : Doc) (overlap : Bool) (lower : Doc)
  | grouped (fill spaced : Bool) (members : List Doc)

namespace Doc

/-- Induction on documents, with the members of a group taken together. -/
@[elab_as_elim]
theorem inductOn {motive : Doc → Prop} (empty : motive .empty) (text : ∀ s, motive (.text s))
    (nested : ∀ k d, motive d → motive (.nested k d))
    (joined : ∀ l spaced r, motive l → motive r → motive (.joined l spaced r))
    (stacked : ∀ u overlap l, motive u → motive l → motive (.stacked u overlap l))
    (grouped : ∀ fill spaced ds, (∀ d ∈ ds, motive d) → motive (.grouped fill spaced ds))
    (d : Doc) : motive d :=
  @Doc.rec motive (fun ds => ∀ d ∈ ds, motive d) empty text nested joined stacked grouped (by simp)
    (fun _ _ hd hds => List.forall_mem_cons.mpr ⟨hd, hds⟩) d

def isEmpty : Doc → Bool
  | .empty => true
  | _ => false

/-- The column between two neighbours. -/
def gap (spaced : Bool) : Nat := if spaced then 1 else 0

mutual

/-- The width on one line, if the document can stand on one. -/
def flat? : Doc → Option Nat
  | .empty => some 0
  | .text s => some s.length
  | .nested _ d => d.flat?
  | .joined l spaced r => do return (← l.flat?) + gap spaced + (← r.flat?)
  | .stacked _ _ _ => none
  | .grouped _ spaced ds => (flatSum? ds).map (· + gap spaced * (ds.length - 1))

/-- The widths of several documents together. -/
def flatSum? : List Doc → Option Nat
  | [] => some 0
  | d :: ds => do return (← d.flat?) + (← flatSum? ds)

end

/-- The nesting of the first line. -/
def lead : Doc → Int
  | .empty => 0
  | .text _ => 0
  | .nested k d => k + d.lead
  | .joined l _ _ => l.lead
  | .stacked u _ _ => u.lead
  | .grouped _ _ [] => 0
  | .grouped _ _ (d :: _) => d.lead

/-- Whether the narrowest layout goes on past the first line. -/
def breaks : Doc → Bool
  | .empty => false
  | .text _ => false
  | .nested _ d => d.breaks
  | .joined l _ r => l.breaks || r.breaks
  | .stacked _ _ _ => true
  | .grouped _ _ _ => true

/-- The width of the first line in the narrowest layout. -/
def first : Doc → Nat
  | .empty => 0
  | .text s => s.length
  | .nested _ d => d.first
  | .joined l spaced r => if l.breaks then l.first else l.first + gap spaced + r.first
  | .stacked u _ _ => u.first
  | .grouped _ _ [] => 0
  | .grouped _ _ (d :: _) => d.first

/-- Side by side, with a space between if `spaced`. -/
def beside (l : Doc) (spaced : Bool) (r : Doc) : Doc :=
  if l.isEmpty then r else if r.isEmpty then l else .joined l spaced r

/-- One above the other. -/
def stack (u : Doc) (overlap : Bool) (l : Doc) : Doc :=
  if u.isEmpty then l else if l.isEmpty then u else .stacked u overlap l

def append (l r : Doc) : Doc := l.beside false r

instance : Append Doc := ⟨append⟩

def appendSpace (l r : Doc) : Doc := l.beside true r

/-- The second below the first, or after it on a short last line. -/
def above (u l : Doc) : Doc := u.stack true l

/-- The second below the first, always on a line of its own. -/
def aboveStrict (u l : Doc) : Doc := u.stack false l

def nest (k : Int) (d : Doc) : Doc :=
  if d.isEmpty || k == 0 then d else .nested k d

/-- The documents that are not empty as one group; one alone needs none. -/
def group (fill spaced : Bool) (ds : List Doc) : Doc :=
  match ds.filter fun d => !d.isEmpty with
  | [] => .empty
  | [d] => d
  | members => .grouped fill spaced members

end Doc

end Offside
